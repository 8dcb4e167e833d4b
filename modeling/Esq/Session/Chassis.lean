import Esq.Infra.Run
import Esq.Session.HashWait
import Esq.Session.Mco

/-!
# chassis

`session/chassis.c` と `esq_execute_session_done_cb`。五つの状態機械のどれで動く session も
同じ `__esq_session_take_action` を通る。ここでは worker の list を持たず、session の番地から
欄を引く `Heap` の上で action を当て、list の操作、子の完了の callback、解放を起きた順に
`log` に残す。list を見る話は `log` を list に当てれば得られる。

malloc した番地は解放されるまで `allocated` である。解放した領域の中身は次に
`esq_session_new` が同じ番地を返すまで残るものとし、そこへの action は渡さない。
`ended` は `POP_FREE_SESSION` の後始末に入ったことの印で、C の欄ではない。
-/

namespace Esq

open Infra

/-! ## データ -/

structure SessionCell where
  session : Session := {}
  wait : HashWait := {}
  mco : McoLabel := .start
deriving DecidableEq, Repr

def SessionCell.new : SessionCell := { session := esqSessionNew }

/-- action と、その間の OS、hash lock、coroutine の結果。 -/
structure ChassisAction where
  action : Action
  params : HashLockParams := {}
  os : Int := 0
  fetch : Int := 0
  isEnd : Bool := false
deriving DecidableEq, Repr

inductive ChassisEvent where
  /-- session `x` の list と poll の操作 -/
  | list (x : Nat) (e : Effect)
  /-- session `x` が new list に加わる -/
  | joinNew (x : Nat) (k : NewList)
  /-- `POP_FREE_SESSION` の後始末に入る -/
  | ended (x : Nat)
  /-- 完了の callback を呼ぶ -/
  | doneCb (x : Nat) (cb : Nat)
  /-- `free(x)` -/
  | free (x : Nat)
deriving DecidableEq, Repr

structure Heap where
  cell : Nat → SessionCell
  allocated : Nat → Bool
  ended : Nat → Bool
  log : List ChassisEvent

def Heap.init : Heap where
  cell _ := {}
  allocated _ := false
  ended _ := false
  log := []

/-! ## 状態機械 -/

/--
`switch(session->session_type)`

`lc` に他の状態機械の行が残っている hash lock の session は、どの `case` にも当たらない。
-/
def SessionCell.step (c : SessionCell) (a : ChassisAction) :
    Except Fault (SessionCell × List Effect) :=
  match c.session.sessionType with
  | .waitForHashLock =>
    if c.session.lc = .start then do
      let (p, wait) ← esqPtOfHashLock c.session c.wait a.action a.params a.fetch
      .ok ({ c with session := p.session, wait }, p.effects)
    else .ok (c, [])
  | .mco => do
    let (p, mco) ← esqPtOfMco c.session c.mco a.action a.os a.isEnd
    .ok ({ c with session := p.session, mco }, p.effects)
  | _ => do
    let p ← c.session.step a.action a.os
    .ok ({ c with session := p.session }, p.effects)

def SessionCell.ready (c : SessionCell) : SessionCell := { c with session := c.session.ready }

def SessionCell.restart (c : SessionCell) : SessionCell where
  session := { c.session with lc := .start }
  wait := { c.wait with lc := .start }
  mco := .start

namespace Heap

def session (h : Heap) (x : Nat) : Session := (h.cell x).session

def emit (h : Heap) (e : ChassisEvent) : Heap := { h with log := h.log ++ [e] }

def setCell (h : Heap) (x : Nat) (c : SessionCell) : Heap :=
  { h with cell := Function.update h.cell x c }

def modify (h : Heap) (x : Nat) (f : Session → Session) : Heap :=
  h.setCell x { h.cell x with session := f (h.session x) }

/-- 状態機械を一歩進めて、list の操作を残す。 -/
def dispatch (h : Heap) (x : Nat) (a : ChassisAction) : Except Fault Heap := do
  let (c, es) ← (h.cell x).ready.step a
  .ok { h.setCell x c with log := h.log ++ es.map (.list x) }

def restart (h : Heap) (x : Nat) : Heap := h.setCell x (h.cell x).restart

/-! ## 解放 -/

def callDone (h : Heap) (p : Nat) : Heap :=
  if (h.session p).sessionDoneCb ≠ 0 then h.emit (.doneCb p (h.session p).sessionDoneCb) else h

def release (h : Heap) (p : Nat) : Heap :=
  { h with allocated := Function.update h.allocated p false }.emit (.free p)

def destroy (h : Heap) (p : Nat) : Heap :=
  (h.modify p fun s => { s with magic := false }).release p

def orphan (h : Heap) (p : Nat) : Heap := h.modify p fun s => { s with parentSession := none }

def discard (h : Heap) (p : Nat) : Heap := ((h.orphan p).callDone p).destroy p

def esqUnhookChildSession (h : Heap) (x : Nat) : Heap :=
  let h' := (h.session x).childSessionList.foldl orphan h
  let h'' := (h.session x).finishedChildSessionList.foldl discard h'
  h''.modify x fun s => { s with childSessionList := [], finishedChildSessionList := [] }

def esqMoveChildSessionIntoFinishList (h : Heap) (parent x : Nat) : Except Fault Heap :=
  if x ∈ (h.session parent).childSessionList then
    .ok (h.modify parent fun s => { s with
      childSessionList := s.childSessionList.erase x
      finishedChildSessionList := x :: s.finishedChildSessionList })
  else .error .designError

/--
`esq_notify_event_to_session`

`ACTION_NOTIFY_EVENT` はどの状態機械でも後始末を頼まないので、状態機械を一歩進めて終わる。
-/
def esqNotifyEventToSession (h : Heap) (x : Nat) (bits : Nat) : Except Fault Heap :=
  if (h.session x).magic then h.dispatch x { action := .notifyEvent bits } else .ok h

def markEnded (h : Heap) (x : Nat) : Heap :=
  { h with ended := Function.update h.ended x true }.emit (.ended x)

def freeSession (h : Heap) (x : Nat) : Except Fault Heap :=
  let h := (h.markEnded x).esqUnhookChildSession x
  if (h.session x).haveParentSession then
    match (h.session x).parentSession with
    | some parent => do
      let h ← h.esqMoveChildSessionIntoFinishList parent x
      h.esqNotifyEventToSession parent esqEventBitTaskDone
    | none => .ok ((h.callDone x).destroy x)
  else .ok (h.destroy x)

/-! ## `__esq_session_take_action` -/

def postActions (h : Heap) (x : Nat) : Except Fault (Int × Heap) :=
  let op := (h.session x).postOp
  if hasBit op popJoinGlobalNewList then .ok (esqOk, h.emit (.joinNew x .globalNew))
  else if hasBit op popJoinLocalNewList then .ok (esqOk, h.emit (.joinNew x .localNew))
  else if hasBit op popFreeSession then do
    let h ← h.freeSession x
    .ok (esqOk, h)
  else if hasBit op popReturnValue then .ok ((h.session x).r, h)
  else .ok (esqOk, h)

def esqSessionTakeAction (h : Heap) (x : Nat) (a : ChassisAction) : Except Fault (Int × Heap) :=
  if (h.session x).magic then do
    let h' ← h.dispatch x a
    if wantsSwitch (h'.session x).postOp then do
      let h'' ← (h'.restart x).dispatch x a
      h''.postActions x
    else h'.postActions x
  else .ok (esqErrorParam, h)

def esqSessionBundleChild (h : Heap) (parent child cb : Nat) : Except Fault (Int × Heap) :=
  if (h.session parent).magic ∧ (h.session child).magic then do
    let (r, h) ← h.esqSessionTakeAction child { action := .setParent parent cb }
    if r ≠ 0 then .ok (r, h)
    else h.esqSessionTakeAction parent { action := .addChild child }
  else .ok (esqErrorParam, h)

/-! ## `esq_execute_session_done_cb` -/

/-- 終わった子の callback を順に呼んで解放する。子の magic が消えていればそこで止まる。 -/
def collectChildren (h : Heap) : List Nat → Except Fault Heap
  | [] => .ok h
  | p :: ps =>
    if (h.session p).magic then ((h.callDone p).release p).collectChildren ps
    else .error .designError

def esqExecuteSessionDoneCb (h : Heap) (x : Nat) : Except Fault Heap :=
  if (h.session x).magic then do
    let h ← h.collectChildren (h.session x).finishedChildSessionList
    .ok (h.modify x fun s => { s with finishedChildSessionList := [] })
  else .error .designError

def esqSessionNew (h : Heap) (x : Nat) : Heap :=
  { h with
    cell := Function.update h.cell x SessionCell.new
    allocated := Function.update h.allocated x true
    ended := Function.update h.ended x false }

def esqSessionInitMcoParams (h : Heap) (x : Nat) : Heap :=
  h.modify x fun s => { s with sessionType := .mco }

end Heap

/-! ## session の側と後始末を分ける -/

/-- 後始末の前までに session に起こること。型を切り替えたら、切り替え先の先頭まで進む。 -/
def SessionCell.act (c : SessionCell) (a : ChassisAction) :
    Except Fault (SessionCell × List Effect) := do
  let (c', es) ← c.ready.step a
  if wantsSwitch c'.session.postOp then do
    let (c'', es') ← c'.restart.ready.step a
    .ok (c'', es ++ es')
  else .ok (c', es)

def Heap.commit (h : Heap) (x : Nat) (c : SessionCell) (es : List Effect) : Heap :=
  { h.setCell x c with log := h.log ++ es.map (.list x) }

section

variable {h : Heap} {x y : Nat} {c : SessionCell} {es : List Effect} {a : ChassisAction}

@[simp] theorem Heap.commit_cell_self : (h.commit x c es).cell x = c := Function.update_self ..

theorem Heap.commit_cell_of_ne (hy : y ≠ x) : (h.commit x c es).cell y = h.cell y :=
  Function.update_of_ne hy ..

@[simp] theorem Heap.commit_session_self : (h.commit x c es).session x = c.session :=
  congrArg SessionCell.session Heap.commit_cell_self

theorem Heap.commit_session_of_ne (hy : y ≠ x) : (h.commit x c es).session y = h.session y :=
  congrArg SessionCell.session (Heap.commit_cell_of_ne hy)

theorem Heap.dispatch_eq :
    h.dispatch x a = ((h.cell x).ready.step a).map fun r => h.commit x r.1 r.2 := by
  unfold Heap.dispatch
  cases (h.cell x).ready.step a <;> rfl

theorem Heap.commit_restart_commit {c' : SessionCell} {es' : List Effect} :
    ((h.commit x c es).restart x).commit x c' es' = h.commit x c' (es ++ es') := by
  unfold Heap.commit Heap.restart Heap.setCell
  simp only [Function.update_idem, List.map_append, List.append_assoc]

/-- **`__esq_session_take_action` は、session の側を進めてから後始末をする。** -/
theorem Heap.esqSessionTakeAction_eq (hm : (h.session x).magic = true) :
    h.esqSessionTakeAction x a
      = ((h.cell x).act a).bind fun r => (h.commit x r.1 r.2).postActions x := by
  unfold Heap.esqSessionTakeAction
  rw [if_pos hm, Heap.dispatch_eq]
  unfold SessionCell.act
  cases hp : (h.cell x).ready.step a with
  | error e => rfl
  | ok r =>
    obtain ⟨c, es⟩ := r
    show (if wantsSwitch ((h.commit x c es).session x).postOp then _ else _) = _
    rw [Heap.commit_session_self, ok_bind]
    dsimp only
    split
    next hsw =>
      have hcell : ((h.commit x c es).restart x).cell x = c.restart := by
        unfold Heap.restart
        rw [Heap.commit_cell_self]
        exact Function.update_self ..
      rw [Heap.dispatch_eq, hcell]
      cases hp' : c.restart.ready.step a with
      | error e => rfl
      | ok r' =>
        show ((((h.commit x c es).restart x).commit x r'.1 r'.2).postActions x) = _
        rw [Heap.commit_restart_commit]
        rfl
    next hsw => rfl

theorem Heap.esqSessionTakeAction_of_not_magic (hm : (h.session x).magic = false) :
    h.esqSessionTakeAction x a = .ok (esqErrorParam, h) := by
  unfold Heap.esqSessionTakeAction
  rw [hm, if_neg Bool.false_ne_true]

theorem Heap.esqMoveChildSessionIntoFinishList_ok {p : Nat}
    (hr : h.esqMoveChildSessionIntoFinishList p x = .ok h') :
    x ∈ (h.session p).childSessionList ∧ h' = h.modify p fun s => { s with
      childSessionList := s.childSessionList.erase x
      finishedChildSessionList := x :: s.finishedChildSessionList } := by
  unfold Heap.esqMoveChildSessionIntoFinishList at hr
  split at hr
  next hmem =>
    cases hr
    exact ⟨hmem, rfl⟩
  next => cases hr

theorem Heap.esqNotifyEventToSession_ok {bits : Nat}
    (hn : h.esqNotifyEventToSession x bits = .ok h') :
    (∃ c es, (h.cell x).ready.step { action := .notifyEvent bits } = .ok (c, es) ∧
        h' = h.commit x c es) ∨
      (h.session x).magic = false ∧ h' = h := by
  unfold Heap.esqNotifyEventToSession at hn
  split at hn
  next =>
    rw [Heap.dispatch_eq] at hn
    obtain ⟨⟨c, es⟩, hstep, rfl⟩ := map_eq_ok.mp hn
    exact .inl ⟨c, es, hstep, rfl⟩
  next hm =>
    cases hn
    exact .inr ⟨Bool.eq_false_iff.mpr hm, rfl⟩

end

/-! ## 記録 -/

def Heap.Grows (h h' : Heap) : Prop := ∃ es, h'.log = h.log ++ es

section

variable {h h' h'' : Heap} {x p : Nat}

theorem Heap.Grows.refl (h : Heap) : h.Grows h := ⟨[], (List.append_nil _).symm⟩

theorem Heap.Grows.trans (h₁ : h.Grows h') (h₂ : h'.Grows h'') : h.Grows h'' := by
  obtain ⟨es, hes⟩ := h₁
  obtain ⟨es', hes'⟩ := h₂
  exact ⟨es ++ es', by rw [hes', hes, List.append_assoc]⟩

theorem Heap.grows_emit (e : ChassisEvent) : h.Grows (h.emit e) := ⟨[e], rfl⟩

theorem Heap.grows_callDone : h.Grows (h.callDone p) := by
  unfold Heap.callDone
  split
  · exact Heap.grows_emit _
  · exact Heap.Grows.refl _

theorem Heap.grows_destroy : h.Grows (h.destroy p) := ⟨[.free p], rfl⟩

theorem Heap.grows_discard : h.Grows (h.discard p) :=
  (Heap.grows_callDone (h := h.orphan p)).trans Heap.grows_destroy

theorem Heap.grows_foldl {f : Heap → Nat → Heap} (hf : ∀ (h : Heap) p, h.Grows (f h p))
    (ps : List Nat) : h.Grows (ps.foldl f h) := by
  induction ps generalizing h with
  | nil => exact Heap.Grows.refl h
  | cons p ps ih => exact (hf h p).trans ih

theorem Heap.grows_modify {f : Session → Session} : h.Grows (h.modify p f) :=
  ⟨[], (List.append_nil _).symm⟩

theorem Heap.grows_unhook : h.Grows (h.esqUnhookChildSession x) :=
  ((Heap.grows_foldl (fun _ _ => Heap.grows_modify) _).trans
    (Heap.grows_foldl (fun _ _ => Heap.grows_discard) _)).trans Heap.grows_modify

theorem Heap.grows_notify {bits : Nat} (hn : h.esqNotifyEventToSession x bits = .ok h') :
    h.Grows h' := by
  rcases Heap.esqNotifyEventToSession_ok hn with ⟨c, es, -, rfl⟩ | ⟨-, rfl⟩
  · exact ⟨_, rfl⟩
  · exact Heap.Grows.refl _

theorem Heap.freeSession_log (hf : h.freeSession x = .ok h') :
    ∃ es, h'.log = h.log ++ .ended x :: es := by
  have hunhook := Heap.grows_unhook (h := h.markEnded x) (x := x)
  have key : ((h.markEnded x).esqUnhookChildSession x).Grows h' := by
    unfold Heap.freeSession at hf
    dsimp only at hf
    split at hf
    · split at hf
      · obtain ⟨u, hu, hf⟩ := bind_eq_ok.mp hf
        refine Heap.Grows.trans ?_ (Heap.grows_notify hf)
        obtain ⟨-, rfl⟩ := Heap.esqMoveChildSessionIntoFinishList_ok hu
        exact Heap.grows_modify
      · cases hf
        exact Heap.grows_callDone.trans Heap.grows_destroy
    · cases hf
      exact Heap.grows_destroy
  obtain ⟨es, hes⟩ := hunhook.trans key
  exact ⟨es, by rw [hes]; simp [Heap.markEnded, Heap.emit]⟩

end

end Esq
