import Esq.Infra.Run
import Esq.Session.Socket

/-!
# worker

`session/worker.c` と `session/chassis.c`。一つの worker thread の list と、
そこで動く session を扱う。session の番地は `Nat` で表す。

状態機械が出した操作（`Effect`）を順に worker の list と io_uring に当てる。
`DOUBLE_LL_LEFT` は session がどの list にいるかを調べずに渡された head と tail を直すので、
渡す list を間違えると別の list が壊れる。後で調べられるように、
`LEFT` を当てる直前の list を `lefts` に残す。

mco と hash lock の session も同じ worker の list に入る。その状態機械はここでは扱わず、
list に正しく出入りすることだけを `other` の操作として許す。
-/

namespace Esq

open Infra

/-! ## データ -/

/-- worker の `list_of_new` と大域の `esq_global_new`。 -/
inductive NewList where
  | localNew
  | globalNew
deriving DecidableEq, Repr

inductive Poll where
  | idle
  | singleShot
  | multiShot
deriving DecidableEq, Repr

structure Cqe where
  session : Nat
  res : Int
deriving DecidableEq, Repr

def ecanceled : Int := 125

structure LeftEntry where
  session : Nat
  head : Option Nat
  next : Nat → Option Nat

/-- 外した session が、その list に本当にいた。 -/
def LeftEntry.Sound (e : LeftEntry) : Prop := ∃ xs, Linked e.next e.head xs ∧ e.session ∈ xs

structure Worker where
  session : Nat → Session
  links : Links Nat
  ends : WorkerList → Ends Nat
  newEnds : NewList → Ends Nat
  poll : Nat → Poll
  /-- io_uring の completion queue -/
  cq : List Cqe
  /-- これまでに当てた `DOUBLE_LL_LEFT` の記録 -/
  lefts : List LeftEntry

def Worker.init : Worker where
  session _ := {}
  links := { prev := fun _ => none, next := fun _ => none }
  ends _ := {}
  newEnds _ := {}
  poll _ := .idle
  cq := []
  lefts := []

/-! ## 操作を当てる -/

def Worker.setSession (w : Worker) (x : Nat) (s : Session) : Worker :=
  { w with session := Function.update w.session x s }

@[simp] theorem Worker.setSession_self (w : Worker) (x : Nat) (s : Session) :
    (w.setSession x s).session x = s := Function.update_self ..

def Worker.setList (w : Worker) (l : WorkerList) (r : Links Nat × Ends Nat) : Worker :=
  { w with links := r.1, ends := Function.update w.ends l r.2 }

def Worker.execEffect (w : Worker) (x : Nat) : Effect → Worker
  | .joinHead l => w.setList l (joinHead w.links (w.ends l) x)
  | .joinTail l => w.setList l (joinTail w.links (w.ends l) x)
  | .left l =>
    { w.setList l (left w.links (w.ends l) x) with
      lefts := ⟨x, (w.ends l).head, w.links.next⟩ :: w.lefts }
  | .addSocketFd _ _ => { w with poll := Function.update w.poll x .singleShot }
  | .addSocketFdMultishot _ _ => { w with poll := Function.update w.poll x .multiShot }
  | .removeSocketFd =>
    -- 仕掛けたままの poll だけが取り消され、`-ECANCELED` で完了する
    match w.poll x with
    | .idle => w
    | _ => { w with poll := Function.update w.poll x .idle, cq := w.cq ++ [⟨x, -ecanceled⟩] }

def Worker.execEffects (w : Worker) (x : Nat) (es : List Effect) : Worker :=
  es.foldl (fun w e => w.execEffect x e) w

def Worker.joinNewList (w : Worker) (k : NewList) (x : Nat) : Worker :=
  let prev := Function.update w.links.prev x none
  let next := Function.update w.links.next x none
  match (w.newEnds k).tail with
  | some t =>
    { w with
      links := { prev, next := Function.update next t (some x) }
      newEnds := Function.update w.newEnds k { w.newEnds k with tail := some x } }
  | none =>
    { w with
      links := { prev, next }
      newEnds := Function.update w.newEnds k { head := some x, tail := some x } }

/-! ## 解放 -/

def Worker.orphan (w : Worker) (p : Nat) : Worker :=
  w.setSession p { w.session p with parentSession := none }

def Worker.discard (w : Worker) (p : Nat) : Worker :=
  w.setSession p { w.session p with parentSession := none, magic := false }

def esqUnhookChildSession (w : Worker) (x : Nat) : Worker :=
  let w' := (w.session x).childSessionList.foldl Worker.orphan w
  let w'' := (w.session x).finishedChildSessionList.foldl Worker.discard w'
  w''.setSession x
    { w''.session x with childSessionList := [], finishedChildSessionList := [] }

def esqMoveChildSessionIntoFinishList (w : Worker) (parent x : Nat) : Except Fault Worker :=
  let s := w.session parent
  if x ∈ s.childSessionList then
    .ok (w.setSession parent { s with
      childSessionList := s.childSessionList.erase x
      finishedChildSessionList := x :: s.finishedChildSessionList })
  else .error .designError

/-! ## `__esq_session_take_action` -/

/-- `switch(session->session_type)`。mco と hash lock の状態機械は扱わない。 -/
def Session.step (s : Session) (action : Action) (os : Int) : Except Fault PtRun :=
  match s.sessionType with
  | .new => esqPtOfNoFd s action
  | .noFd => esqPtOfNoFd s action
  | .socketCb => esqPtOfSingleShotSocket s action os
  | .multiSocketCb => esqPtOfMultiShotSocket s action os
  | .mco => .ok { session := s }
  | .waitForHashLock => .ok { session := s }

def Session.ready (s : Session) : Session := { s with postOp := popNoOp }

/-- 状態機械を一歩進めて、操作を worker に当てる。 -/
def Worker.dispatch (w : Worker) (x : Nat) (action : Action) (os : Int) :
    Except Fault Worker := do
  let p ← (w.session x).ready.step action os
  .ok ((w.setSession x p.session).execEffects x p.effects)

def Worker.freeSession (w : Worker) (x : Nat) (os : Int) : Except Fault Worker :=
  let w := esqUnhookChildSession w x
  let s := w.session x
  let freed := w.setSession x { s with magic := false }
  if s.haveParentSession then
    match s.parentSession with
    | some parent => do
      let w ← esqMoveChildSessionIntoFinishList w parent x
      if (w.session parent).magic then
        w.dispatch parent (.notifyEvent esqEventBitTaskDone) os
      else .ok w
    | none => .ok freed
  else .ok freed

def Worker.postActions (w : Worker) (x : Nat) (os : Int) : Except Fault (Int × Worker) :=
  let op := (w.session x).postOp
  if hasBit op popJoinGlobalNewList then .ok (esqOk, w.joinNewList .globalNew x)
  else if hasBit op popJoinLocalNewList then .ok (esqOk, w.joinNewList .localNew x)
  else if hasBit op popFreeSession then do
    let w ← w.freeSession x os
    .ok (esqOk, w)
  else if hasBit op popReturnValue then .ok ((w.session x).r, w)
  else .ok (esqOk, w)

/-- 後始末より先に型の切り替えが効くのは、list に加わらず解放もされないときである。 -/
def wantsSwitch (postOp : Nat) : Bool :=
  !hasBit postOp popJoinGlobalNewList && !hasBit postOp popJoinLocalNewList &&
    !hasBit postOp popFreeSession && hasBit postOp popSwitchSessionType

/--
`__esq_session_take_action`

型を切り替えた session は `lc` を 0 に戻して同じ action をもう一度受ける。
切り替え先の状態機械は先頭で欄を写して止まるので、二度切り替わることはない。
-/
def esqSessionTakeAction (w : Worker) (x : Nat) (action : Action) (os : Int) :
    Except Fault (Int × Worker) :=
  if (w.session x).magic then do
    let w' ← w.dispatch x action os
    if wantsSwitch (w'.session x).postOp then do
      let w'' ← (w'.setSession x { w'.session x with lc := .start }).dispatch x action os
      w''.postActions x os
    else w'.postActions x os
  else .ok (esqErrorParam, w)

/-! ## 操作の列 -/

/-- mco や hash lock の session が worker の list に対して行うこと。 -/
inductive OtherOp where
  | list (e : Effect)
  | joinNew (k : NewList)
deriving DecidableEq, Repr

inductive WorkerOp where
  /-- `esq_session_new` が番地 `x` を返す -/
  | new (x : Nat)
  /-- session に action を渡す -/
  | act (x : Nat) (action : Action) (os : Int)
  /-- `esq_session_bundle_child` -/
  | bundle (parent child : Nat) (cb : Nat) (os : Int)
  /-- `esq_worker_pick_up_from_local_list` と `esq_worker_pick_up_from_global_list` -/
  | pickUp (k : NewList) (os : Int)
  /-- 他の種類の session の list の操作 -/
  | other (x : Nat) (op : OtherOp)
  /-- 仕掛けた poll が `res` で完了する -/
  | complete (x : Nat) (res : Int)
deriving DecidableEq, Repr

/-- `esq_worker_pick_up_from_local_list` の、list の先頭を一つ取る所。 -/
def Worker.popNewList (w : Worker) (k : NewList) : Option (Nat × Worker) :=
  match (w.newEnds k).head with
  | none => none
  | some x =>
    some (x, { w with
      newEnds := Function.update w.newEnds k (popEnds w.links.next (w.newEnds k) x) })

def esqWorkerPickUp (w : Worker) (k : NewList) (os : Int) : Except Fault Worker :=
  match w.popNewList k with
  | none => .ok w
  | some (x, w) => do
    let (_, w) ← esqSessionTakeAction w x .pickUp os
    .ok w

/--
`esq_session_bundle_child`

子に親を覚えさせてから、親の `child_session_list` に子を繋ぐ。
-/
def esqSessionBundleChild (w : Worker) (parent child cb : Nat) (os : Int) :
    Except Fault (Int × Worker) :=
  if (w.session parent).magic ∧ (w.session child).magic then do
    let (r, w) ← esqSessionTakeAction w child (.setParent parent cb) os
    if r ≠ 0 then .ok (r, w)
    else esqSessionTakeAction w parent (.addChild child) os
  else .ok (esqErrorParam, w)

/-- `ACTION_PICK_UP` は list から取った session に、`ACTION_SET_PARENT` と `ACTION_ADD_CHILD` は
`esq_session_bundle_child` からだけ渡される。 -/
def Action.reserved : Action → Bool
  | .pickUp => true
  | .setParent _ _ => true
  | .addChild _ => true
  | _ => false

def Session.isForeign (s : Session) : Bool :=
  s.sessionType = .mco || s.sessionType = .waitForHashLock

/-- mco か hash lock の状態機械で動いている session である。 -/
def Session.isOther (s : Session) : Bool :=
  s.magic && (s.sessionType = .mco || (s.sessionType = .waitForHashLock && s.lc = .start))

/-- io_uring が completion queue に一つ積む。single shot の poll は完了すると外れる。 -/
def Worker.completePoll (w : Worker) (x : Nat) (res : Int) : Worker :=
  match w.poll x with
  | .idle => w
  | .singleShot =>
    { w with poll := Function.update w.poll x .idle, cq := w.cq ++ [⟨x, res⟩] }
  | .multiShot => { w with cq := w.cq ++ [⟨x, res⟩] }

def workerStep (w : Worker) : WorkerOp → Option Worker
  | .new x => if (w.session x).magic then none else some (w.setSession x esqSessionNew)
  | .act x action os =>
    if action.reserved then none
    else match esqSessionTakeAction w x action os with
      | .error _ => none
      | .ok (_, w) => some w
  | .bundle parent child cb os =>
    -- mco と hash lock の session の親子は扱わない
    if (w.session parent).isForeign || (w.session child).isForeign then none
    else match esqSessionBundleChild w parent child cb os with
      | .error _ => none
      | .ok (_, w) => some w
  | .pickUp k os => (esqWorkerPickUp w k os).toOption
  | .other x op =>
    if (w.session x).isOther then
      match op with
      | .list e => some (w.execEffect x e)
      | .joinNew k => some (w.joinNewList k x)
    else none
  | .complete x res => some (w.completePoll x res)

end Esq
