import Esq.Session.Broadcast
import Esq.Session.Chassis
import Esq.Session.Deadline

/-!
# 時間切れを知らせる

`session/timing.c` の `esq_session_timing`。五つの状態機械のどれで動く session も、待つ間は
同じ timing list に入る。timing list に入るたびに時刻を記録し、worker は四つの list を順に
辿って、締め切りを過ぎた session に `ACTION_NOTIFY_TIMEOUT` を渡す。

hash lock の session は、時間切れを受けても timing list に残る。残った session がもう一度
時間切れを受けると `INVALID_ACTION_TYPE` が process を終わらせ、後ろの session には届かない。

* `SessionCell.Rests.notifyTimeout` — 待っている session は時間切れを受け付け、辿っている list の
  後ろも、他の timing list も乱さない
* `esqSessionTiming_delivers` — 知らせを受けるのは、辿る順で終わりになる所までの、
  締め切りを過ぎたと見えた session である
* `session_timing_iff` — それが本当に締め切りを過ぎた session であるための条件
-/

namespace Esq

open Infra

/-! ## worker -/

/-- worker と、どの状態機械の欄も合わせた session。`windUp` は session に記録した時刻。 -/
structure TimedWorker where
  worker : Worker
  wait : Nat → HashWait
  mco : Nat → McoLabel
  windUp : Nat → WindUp
  /-- `ctx->esq_os_event_wait_max` -/
  eventWaitMax : Int
  /-- `esq_stop_server_on_purpose` が呼ばれた -/
  stopFlag : Bool

namespace TimedWorker

def session (w : TimedWorker) (x : Nat) : Session := w.worker.session x

def cell (w : TimedWorker) (x : Nat) : SessionCell where
  session := w.worker.session x
  wait := w.wait x
  mco := w.mco x

def setCell (w : TimedWorker) (x : Nat) (c : SessionCell) : TimedWorker :=
  { w with
    worker := w.worker.setSession x c.session
    wait := Function.update w.wait x c.wait
    mco := Function.update w.mco x c.mco }

/-- `RECORD_WIND_UP_TIME`。`none` は `gettimeofday` の失敗。 -/
def recordWindUpTime (w : TimedWorker) (x : Nat) : Option TimeVal → TimedWorker
  | none => { w with stopFlag := true }
  | some t => { w with windUp := Function.update w.windUp x (.record t) }

/-- 先頭に入れるのは `esq_session_join_timing_list` だけで、入れた後に時刻を記録する。 -/
def execEffect (clock : Option TimeVal) (x : Nat) (w : TimedWorker) (e : Effect) : TimedWorker :=
  let w' := { w with worker := w.worker.execEffect x e }
  match e with
  | .joinHead _ => w'.recordWindUpTime x clock
  | _ => w'

def execEffects (w : TimedWorker) (clock : Option TimeVal) (x : Nat) (es : List Effect) :
    TimedWorker := es.foldl (execEffect clock x) w

/-- 状態機械を一歩進めて、操作を worker に当てる。`clock` はその間の `gettimeofday`。 -/
def dispatch (w : TimedWorker) (clock : Option TimeVal) (x : Nat) (a : ChassisAction) :
    Except Fault TimedWorker := do
  let (c, es) ← (w.cell x).ready.step a
  .ok ((w.setCell x c).execEffects clock x es)

def restart (w : TimedWorker) (x : Nat) : TimedWorker := w.setCell x (w.cell x).restart

def freeSession (w : TimedWorker) (clock : Option TimeVal) (x : Nat) : Except Fault TimedWorker :=
  let w := { w with worker := esqUnhookChildSession w.worker x }
  let s := w.session x
  let freed := { w with worker := w.worker.setSession x { s with magic := false } }
  if s.haveParentSession then
    match s.parentSession with
    | some parent => do
      let worker ← esqMoveChildSessionIntoFinishList w.worker parent x
      let w := { w with worker }
      if (w.session parent).magic then
        w.dispatch clock parent { action := .notifyEvent esqEventBitTaskDone }
      else .ok w
    | none => .ok freed
  else .ok freed

def postActions (w : TimedWorker) (clock : Option TimeVal) (x : Nat) :
    Except Fault (Int × TimedWorker) :=
  let op := (w.session x).postOp
  if hasBit op popJoinGlobalNewList then
    .ok (esqOk, { w with worker := w.worker.joinNewList .globalNew x })
  else if hasBit op popJoinLocalNewList then
    .ok (esqOk, { w with worker := w.worker.joinNewList .localNew x })
  else if hasBit op popFreeSession then do
    let w ← w.freeSession clock x
    .ok (esqOk, w)
  else if hasBit op popReturnValue then .ok ((w.session x).r, w)
  else .ok (esqOk, w)

def takeAction (w : TimedWorker) (clock : Option TimeVal) (x : Nat) (a : ChassisAction) :
    Except Fault (Int × TimedWorker) :=
  if (w.session x).magic then do
    let w' ← w.dispatch clock x a
    if wantsSwitch (w'.session x).postOp then do
      let w'' ← (w'.restart x).dispatch clock x a
      w''.postActions clock x
    else w'.postActions clock x
  else .ok (esqErrorParam, w)

def updatePollingInterval (w : TimedWorker) : TimedWorker :=
  let waits (l : WorkerList) : Bool := (w.worker.ends l).head.isSome
  { w with
    eventWaitMax :=
      if waits .of0msTo100ms then 5
      else if waits .of100msTo1s then 50
      else if waits .of1sTo10s then 500
      else if waits .ofLongerThan10s then 5000
      else -1 }

end TimedWorker

/-! ## 走査 -/

/-- 辿っている途中の worker。`delivered` はこれまでに `ACTION_NOTIFY_TIMEOUT` を渡した session。 -/
structure Tick where
  w : TimedWorker
  delivered : List Nat

/-- process が終わったときも、それまでに渡した session は残る。 -/
abbrev TickFault := Fault × List Nat

def TimedWorker.fires (w : TimedWorker) (now : TimeVal) (x : Nat) : Bool :=
  timesOut (w.windUp x) (w.session x).timeouts (w.session x).timeoutms now

/--
`CHECK_EVENTS_TIMING2` の一回分

`os n` と `clock n` は `n` 番目に知らせる間の `esq_os_events_*` と `gettimeofday` の結果。
-/
def Tick.check (os : Nat → Int) (clock : Nat → Option TimeVal) (now : TimeVal) (k : Tick)
    (x : Nat) : Except TickFault Tick :=
  if k.w.fires now x then
    let n := k.delivered.length
    -- `__esq_notify_timeout_event`
    match k.w.takeAction (clock n) x { action := .notifyTimeout, os := os n } with
    | .ok (_, w) => .ok { w, delivered := k.delivered ++ [x] }
    | .error e => .error (e, k.delivered ++ [x])
  else .ok k

def checkEventsTiming2 (os : Nat → Int) (clock : Nat → Option TimeVal) (now : TimeVal)
    (fuel : Nat) (k : Tick) (l : WorkerList) : Except TickFault Tick :=
  walkSaved (fun k x => k.w.worker.links.next x) (Tick.check os clock now) (.endless, []) fuel
    (k.w.worker.ends l).head k

def timingOrder : List WorkerList := [.of0msTo100ms, .of100msTo1s, .of1sTo10s, .ofLongerThan10s]

/-- `esq_session_timing`。`there_is_timeout_event` は誰かに渡したことと同じである。 -/
def esqSessionTiming (os : Nat → Int) (clock : Nat → Option TimeVal) (fuel : Nat)
    (now : Option TimeVal) (w : TimedWorker) : Except TickFault Tick :=
  match now with
  | none => .ok { w := { w with stopFlag := true }, delivered := [] }
  | some now => do
    let k ← timingOrder.foldlM (checkEventsTiming2 os clock now fuel) { w, delivered := [] }
    .ok (if k.delivered = [] then k else { k with w := k.w.updatePollingInterval })

def deliveries : Except TickFault Tick → List Nat
  | .ok k => k.delivered
  | .error e => e.2

/-! ## callback の間 -/

/-- callback が動いていないときに list にいる session の状態と、いる list。 -/
inductive SessionCell.Rests (c : SessionCell) : WorkerList → Prop where
  /-- hash lock でない session。multi shot は timeout を持たない -/
  | plain {l : WorkerList} (h : RestsIn c.session c.mco l)
    (hmulti : c.session.sessionType = .multiSocketCb →
      c.session.timeouts = 0 ∧ c.session.timeoutms = 0) : c.Rests l
  | hashWindedUp (ht : c.session.sessionType = .waitForHashLock) (hs : c.session.lc = .start)
    (hw : c.wait.lc = .windedUp) : c.Rests c.session.timingList
  | hashActive (ht : c.session.sessionType = .waitForHashLock) (hs : c.session.lc = .start)
    (hw : c.wait.lc = .active) : c.Rests .active
  /-- 時間切れか exit を受けて、timing list に残っている -/
  | hashLeftBehind (ht : c.session.sessionType = .waitForHashLock) (hs : c.session.lc = .start)
    (hw : c.wait.lc = .active) : c.Rests c.session.timingList

/-- 待ち終えた hash lock の session。`ACTION_NOTIFY_TIMEOUT` を受け付けない。 -/
def SessionCell.spent (c : SessionCell) : Bool :=
  c.session.sessionType = .waitForHashLock && c.wait.lc = .active

def Effect.Spares (l : WorkerList) (e : Effect) : Prop :=
  e ≠ .joinHead l ∧ e ≠ .joinTail l ∧ e ≠ .left l

structure TookTimeout (c : SessionCell) (l : WorkerList) (c' : SessionCell) (es : List Effect) :
    Prop where
  magic : c'.session.magic = c.session.magic
  postOp : c'.session.postOp = popNoOp
  moves : ∃ l', c'.Rests l' ∧ (Place.list l).moves es = some (.list l')
  /-- いた list の末尾には入り直さない -/
  notTail : .joinTail l ∉ es
  /-- 他の timing list には触れない -/
  spares : ∀ k ∈ timingOrder, k ≠ l → ∀ e ∈ es, e.Spares k

section

variable {c c' : SessionCell} {l : WorkerList} {es : List Effect} {os : Int}

theorem spares_of_mem (hes : ∀ e ∈ es, e = .left l ∨ e = .joinTail .active ∨
    e = .joinHead .ofNoTime ∨ e = .removeSocketFd) :
    ∀ k ∈ timingOrder, k ≠ l → ∀ e ∈ es, e.Spares k := by
  intro k hk hkl e he
  have hactive : k ≠ .active := by
    rintro rfl
    exact absurd hk (by decide)
  have hno : k ≠ .ofNoTime := by
    rintro rfl
    exact absurd hk (by decide)
  unfold Effect.Spares
  rcases hes e he with rfl | rfl | rfl | rfl <;> simp [hactive.symm, hno.symm, hkl.symm]

theorem removeFdThenActive_effects {p : PtRun} (heff : p.effects = []) :
    ∀ e ∈ (SingleShot.removeFdThenActive p os).effects, e = .left p.session.timingList ∨
      e = .joinTail .active ∨ e = .joinHead .ofNoTime ∨ e = .removeSocketFd := by
  intro e he
  unfold SingleShot.removeFdThenActive at he
  split at he
  · split at he
    · simp [heff] at he
      rcases he with rfl | rfl
      · exact Or.inl rfl
      · exact Or.inr (Or.inl rfl)
    · -- poll の取り消しを待つ間は no time の list にいる
      show _ = Effect.left (timingList p.session.timeouts p.session.timeoutms) ∨ _
      simp only [PtRun.goto, PtRun.set] at he
      unfold PtRun.changeToNoTimingList at he
      split at he
      · simp [heff, Session.timingList, timingList_zero] at he
        rcases he with rfl | rfl | rfl <;> simp
      · simp [heff] at he
        simp [he]
  · simp [heff] at he
    rcases he with rfl | rfl
    · exact Or.inl rfl
    · exact Or.inr (Or.inl rfl)

theorem removeFdThenActive_sessionType (p : PtRun) :
    (SingleShot.removeFdThenActive p os).session.sessionType = p.session.sessionType := by
  unfold SingleShot.removeFdThenActive
  split
  · split
    · rfl
    · exact (changeToNoTimingList_session _).2.1
  · rfl

theorem SessionCell.Rests.start_of_spent (h : c.Rests l) (hspent : c.spent = true) :
    c.session.lc = .start := by
  cases h with
  | plain h hmulti =>
    unfold SessionCell.spent at hspent
    cases h <;> simp_all
  | hashWindedUp ht hs hw => exact hs
  | hashActive ht hs hw => exact hs
  | hashLeftBehind ht hs hw => exact hs

theorem step_of_spent (hspent : c.spent = true) (hs : c.session.lc = .start) :
    c.ready.step { action := .notifyTimeout, os } = .error .invalidActionType := by
  unfold SessionCell.spent at hspent
  simp only [Bool.and_eq_true, decide_eq_true_eq] at hspent
  obtain ⟨ht, hw⟩ := hspent
  unfold SessionCell.step SessionCell.ready
  simp only [Session.ready, ht, hs, if_true, esqPtOfHashLock, hw]
  rfl

theorem timingOrder_ne (hl : l ∈ timingOrder) : l ≠ .active ∧ l ≠ .ofNoTime := by
  constructor <;> (rintro rfl; exact absurd hl (by decide))

theorem tookTimeout_of_plain {p : PtRun} {mco : McoLabel} (h : TookExit c.session l p mco)
    (ht : p.session.sessionType ≠ .multiSocketCb)
    (heff : ∀ e ∈ p.effects, e = .left l ∨ e = .joinTail .active ∨ e = .joinHead .ofNoTime ∨
      e = .removeSocketFd) :
    TookTimeout c l { c with session := p.session, mco } p.effects where
  magic := h.magic
  postOp := h.postOp
  moves := by
    obtain ⟨l', hrest, hmoves⟩ := h.moves
    exact ⟨l', .plain hrest fun hm => absurd hm ht, hmoves⟩
  notTail := h.notTail
  spares := spares_of_mem heff

/-- **timing list で待っている session は、`ACTION_NOTIFY_TIMEOUT` を受け付ける。** -/
theorem SessionCell.Rests.notifyTimeout (h : c.Rests l) (hl : l ∈ timingOrder)
    (hspent : c.spent = false) (os : Int) :
    ∃ c' es, c.ready.step { action := .notifyTimeout, os } = .ok (c', es) ∧
      TookTimeout c l c' es := by
  obtain ⟨hactive, hno⟩ := timingOrder_ne hl
  unfold SessionCell.step
  cases h with
  | plain h hmulti =>
    cases h with
    | singleWindedUp ht hlc =>
      simp only [SessionCell.ready, Session.ready, ht, Session.step, esqPtOfSingleShotSocket, hlc]
      refine ⟨_, _, rfl, tookTimeout_of_plain (removeFdThenActive_tookExit rfl rfl rfl rfl rfl) ?_
        (removeFdThenActive_effects rfl)⟩
      rw [removeFdThenActive_sessionType]
      exact (by decide : SessionType.socketCb ≠ .multiSocketCb)
    | singleRemoving ht hlc => exact absurd rfl hno
    | singleActive ht hlc => exact absurd rfl hactive
    | multiWindedUp ht hlc =>
      -- multi shot の session は no time の list でしか待たない
      obtain ⟨h0, h1⟩ := hmulti ht
      refine absurd ?_ hno
      unfold Session.timingList
      rw [h0, h1]
      rfl
    | multiRemoving ht hlc => exact absurd rfl hno
    | multiActive ht hlc => exact absurd rfl hactive
    | mcoWindedUp ht hlc =>
      simp only [SessionCell.ready, Session.ready, ht, esqPtOfMco, hlc]
      refine ⟨_, _, rfl, tookTimeout_of_plain (tookExit_toActive rfl rfl (.mcoActive rfl rfl) rfl)
        (by decide : SessionType.mco ≠ .multiSocketCb) fun e he => ?_⟩
      simp [McoPt.wake] at he
      rcases he with rfl | rfl
      · exact Or.inl rfl
      · exact Or.inr (Or.inl rfl)
    | mcoActive ht hlc => exact absurd rfl hactive
  | hashWindedUp ht hs hw =>
    simp only [SessionCell.ready, Session.ready, ht, hs, if_true, esqPtOfHashLock, hw]
    refine ⟨_, _, rfl, rfl, rfl, ⟨_, .hashLeftBehind rfl rfl rfl, rfl⟩, ?_, fun k _ _ => ?_⟩
    · exact List.not_mem_nil
    · exact List.forall_mem_nil _
  | hashActive ht hs hw => exact absurd rfl hactive
  | hashLeftBehind ht hs hw => simp [SessionCell.spent, ht, hw] at hspent

end

/-! ## 一つの session に知らせる -/

/-- どの session も、callback の間の状態が許す list にいる。 -/
structure Resting (w : TimedWorker) (m : WorkerList → List Nat) : Prop where
  lists : IsFamily w.worker.links w.worker.ends m
  magic : ∀ l, ∀ x ∈ m l, (w.session x).magic = true
  rests : ∀ l, ∀ x ∈ m l, (w.cell x).Rests l

/-- 待ち終えて残っている session。知らせると process が終わる。 -/
def TimedWorker.spent (w : TimedWorker) (x : Nat) : Bool := (w.cell x).spent

section

variable {w w' : TimedWorker} {m m' : WorkerList → List Nat} {l : WorkerList} {x y : Nat}
  {c : SessionCell} {es : List Effect} {clock : Option TimeVal}

theorem rewriteLists_of_spares (h : ∀ e ∈ es, e.Spares l) (m : WorkerList → List Nat) :
    rewriteLists x m es l = m l := by
  induction es generalizing m with
  | nil => rfl
  | cons e es ih =>
    refine (ih (fun e' he' => h e' (List.mem_cons_of_mem e he')) (e.rewrite x m)).trans ?_
    obtain ⟨hhead, htail, hleft⟩ := h e List.mem_cons_self
    cases e with
    | joinHead k => exact Function.update_of_ne (fun hk => hhead (by rw [hk])) ..
    | joinTail k => exact Function.update_of_ne (fun hk => htail (by rw [hk])) ..
    | left k => exact Function.update_of_ne (fun hk => hleft (by rw [hk])) ..
    | _ => rfl

theorem recordWindUpTime_worker (w : TimedWorker) (x : Nat) (clock : Option TimeVal) :
    (w.recordWindUpTime x clock).worker = w.worker := by cases clock <;> rfl

theorem recordWindUpTime_cell (w : TimedWorker) (x y : Nat) (clock : Option TimeVal) :
    (w.recordWindUpTime x clock).cell y = w.cell y := by cases clock <;> rfl

theorem recordWindUpTime_windUp (hy : y ≠ x) :
    (w.recordWindUpTime x clock).windUp y = w.windUp y := by
  cases clock with
  | none => rfl
  | some t => exact Function.update_of_ne hy ..

/-- 操作は session の欄に触れず、他の session の時刻にも触れない。 -/
structure SameCells (x : Nat) (w w' : TimedWorker) : Prop where
  cell : ∀ y, w'.cell y = w.cell y
  windUp : ∀ y, y ≠ x → w'.windUp y = w.windUp y

theorem SameCells.trans {w'' : TimedWorker} (h : SameCells x w w') (h' : SameCells x w' w'') :
    SameCells x w w'' where
  cell y := (h'.cell y).trans (h.cell y)
  windUp y hy := (h'.windUp y hy).trans (h.windUp y hy)

theorem timed_execEffect (e : Effect) (w : TimedWorker) :
    (w.execEffect clock x e).worker = w.worker.execEffect x e ∧
      SameCells x w (w.execEffect clock x e) := by
  have hsess : (w.worker.execEffect x e).session = w.worker.session :=
    execEffects_session [e] w.worker
  have hcell : ∀ y, ({ w with worker := w.worker.execEffect x e } : TimedWorker).cell y
      = w.cell y := fun y => by
    unfold TimedWorker.cell
    rw [hsess]
  cases e with
  | joinHead l =>
    exact ⟨recordWindUpTime_worker _ _ _,
      fun y => (recordWindUpTime_cell _ _ _ _).trans (hcell y), fun y hy => recordWindUpTime_windUp hy⟩
  | _ => exact ⟨rfl, hcell, fun _ _ => rfl⟩

theorem timed_execEffects (es : List Effect) (w : TimedWorker) :
    (w.execEffects clock x es).worker = w.worker.execEffects x es ∧
      SameCells x w (w.execEffects clock x es) := by
  induction es generalizing w with
  | nil => exact ⟨rfl, fun _ => rfl, fun _ _ => rfl⟩
  | cons e es ih =>
    obtain ⟨hworker, hsame⟩ := ih (w.execEffect clock x e)
    refine ⟨hworker.trans ?_, (timed_execEffect e w).2.trans hsame⟩
    rw [(timed_execEffect e w).1]
    rfl

def TimedWorker.stepped (w : TimedWorker) (clock : Option TimeVal) (x : Nat) (c : SessionCell)
    (es : List Effect) : TimedWorker := (w.setCell x c).execEffects clock x es

theorem setCell_cell_self : (w.setCell x c).cell x = c := by
  unfold TimedWorker.setCell TimedWorker.cell Worker.setSession
  simp

theorem setCell_cell_of_ne (hy : y ≠ x) : (w.setCell x c).cell y = w.cell y := by
  unfold TimedWorker.setCell TimedWorker.cell Worker.setSession
  simp [hy]

theorem timedStepped_cell_self : (w.stepped clock x c es).cell x = c :=
  ((timed_execEffects es _).2.cell x).trans setCell_cell_self

theorem timedStepped_of_ne (hy : y ≠ x) : (w.stepped clock x c es).cell y = w.cell y ∧
    (w.stepped clock x c es).windUp y = w.windUp y :=
  ⟨((timed_execEffects es _).2.cell y).trans (setCell_cell_of_ne hy),
    (timed_execEffects es _).2.windUp y hy⟩

theorem timedTakeAction_stay {a : ChassisAction} (hm : (w.session x).magic = true)
    (h : (w.cell x).ready.step a = .ok (c, es)) (hop : c.session.postOp = popNoOp) :
    w.takeAction clock x a = .ok (esqOk, w.stepped clock x c es) := by
  have hdispatch : w.dispatch clock x a = .ok (w.stepped clock x c es) := by
    unfold TimedWorker.dispatch
    rw [h]
    rfl
  have hsess : ((w.stepped clock x c es).session x).postOp = popNoOp :=
    (congrArg (fun c : SessionCell => c.session.postOp) timedStepped_cell_self).trans hop
  unfold TimedWorker.takeAction TimedWorker.postActions
  rw [if_pos hm, hdispatch, ok_bind, hsess]
  rfl

structure TimeoutTaken (w w' : TimedWorker) (m m' : WorkerList → List Nat) (l : WorkerList)
    (x : Nat) : Prop where
  resting : Resting w' m'
  suffix : ∀ rest, x ∉ rest → rest <:+ m l → rest <:+ m' l
  elsewhere : ∀ k ∈ timingOrder, k ≠ l → m' k = m k
  others : ∀ y, y ≠ x → w'.cell y = w.cell y ∧ w'.windUp y = w.windUp y

/-- **timing list で待っている session 一つに `ACTION_NOTIFY_TIMEOUT` を渡す。** -/
theorem notifyTimeout_spec (os : Int) (clock : Option TimeVal) (h : Resting w m)
    (hl : l ∈ timingOrder) (hx : x ∈ m l) (hspent : w.spent x = false) :
    ∃ w' m', w.takeAction clock x { action := .notifyTimeout, os } = .ok (esqOk, w') ∧
      TimeoutTaken w w' m m' l x := by
  obtain ⟨c, es, hstep, htook⟩ := (h.rests l x hx).notifyTimeout hl hspent os
  obtain ⟨l', hrest', hmoves⟩ := htook.moves
  have hworker : ((w.setCell x c).execEffects clock x es).worker
      = (w.setCell x c).worker.execEffects x es := (timed_execEffects es (w.setCell x c)).1
  have hset : IsFamily (w.setCell x c).worker.links (w.setCell x c).worker.ends m := h.lists
  obtain ⟨hfam, hmem⟩ := isFamily_execEffects hset (p := .list l) hx hmoves
  refine ⟨w.stepped clock x c es, rewriteLists x m es,
    timedTakeAction_stay (h.magic l x hx) hstep htook.postOp, ⟨?_, ?_, ?_⟩, ?_, ?_,
    fun y hy => timedStepped_of_ne hy⟩
  · show IsFamily (w.stepped clock x c es).worker.links _ _
    unfold TimedWorker.stepped
    rw [hworker]
    exact hfam
  · intro k y hy
    show ((w.stepped clock x c es).cell y).session.magic = true
    by_cases hyx : y = x
    · subst hyx
      rw [timedStepped_cell_self]
      exact htook.magic.trans (h.magic l y hx)
    · rw [(timedStepped_of_ne hyx).1]
      exact h.magic k y ((mem_rewriteLists hyx _ _ _).mp hy)
  · intro k y hy
    by_cases hyx : y = x
    · -- 知らせた session は、新しい状態が許す list にだけいる
      subst hyx
      obtain rfl : k = l' := hfam.disjoint hy hmem
      rw [timedStepped_cell_self]
      exact hrest'
    · rw [(timedStepped_of_ne hyx).1]
      exact h.rests k y ((mem_rewriteLists hyx _ _ _).mp hy)
  · exact fun rest hrest hsuf => rewriteLists_suffix hrest htook.notTail hsuf
  · exact fun k hk hkl => rewriteLists_of_spares (htook.spares k hk hkl) m

theorem notifyTimeout_of_spent (os : Int) (clock : Option TimeVal) (h : Resting w m)
    (hx : x ∈ m l) (hspent : w.spent x = true) :
    w.takeAction clock x { action := .notifyTimeout, os } = .error .invalidActionType := by
  unfold TimedWorker.takeAction TimedWorker.dispatch
  rw [if_pos (h.magic l x hx), step_of_spent hspent ((h.rests l x hx).start_of_spent hspent)]
  rfl

end

/-! ## 一つの list を辿る -/

/-- 並びを辿って知らせる session。待ち終えた session に知らせた所で終わる。 -/
def TimedWorker.notified (w : TimedWorker) (now : TimeVal) (xs : List Nat) : List Nat :=
  upTo w.spent (xs.filter (w.fires now))

/-- 待ち終えた session に知らせることになる。 -/
def TimedWorker.halts (w : TimedWorker) (now : TimeVal) (xs : List Nat) : Prop :=
  ∃ x ∈ xs.filter (w.fires now), w.spent x = true

/--
list `l` を辿っている途中。

`done` は見終えた session、`rest` はこれから見る session で、`w₀` と `m₀` は辿り始めの様子。
-/
structure Ticking (now : TimeVal) (k₀ : Tick) (m₀ : WorkerList → List Nat) (l : WorkerList)
    (k : Tick) (m : WorkerList → List Nat) (done rest : List Nat) : Prop where
  resting : Resting k.w m
  whole : m₀ l = done ++ rest
  suffix : rest <:+ m l
  elsewhere : ∀ j ∈ timingOrder, j ≠ l → m j = m₀ j
  /-- まだ見ていない session は変わっていない -/
  pending : ∀ y, (y ∈ rest ∨ ∃ j ∈ timingOrder, j ≠ l ∧ y ∈ m₀ j) →
    k.w.cell y = k₀.w.cell y ∧ k.w.windUp y = k₀.w.windUp y
  delivered : k.delivered = k₀.delivered ++ done.filter (k₀.w.fires now)
  unspent : ¬ k₀.w.halts now done

section

variable {now : TimeVal} {k₀ k : Tick} {m₀ m : WorkerList → List Nat} {l : WorkerList}
  {done rest : List Nat} {x : Nat} {os : Nat → Int} {clock : Nat → Option TimeVal}

theorem fires_congr {w w' : TimedWorker} (hc : w'.cell x = w.cell x)
    (hu : w'.windUp x = w.windUp x) : w'.fires now x = w.fires now x := by
  have hs : w'.session x = w.session x := congrArg SessionCell.session hc
  unfold TimedWorker.fires
  rw [hs, hu]

theorem Ticking.start (h : Resting k.w m) : Ticking now k m l k m [] (m l) where
  resting := h
  whole := rfl
  suffix := List.suffix_refl _
  elsewhere _ _ _ := rfl
  pending _ _ := ⟨rfl, rfl⟩
  delivered := (List.append_nil _).symm
  unspent := by simp [TimedWorker.halts]

theorem Ticking.forall_unspent (h : Ticking now k₀ m₀ l k m done rest) :
    ∀ y ∈ done.filter (k₀.w.fires now), k₀.w.spent y = false := by
  intro y hy
  by_contra hys
  exact h.unspent ⟨y, hy, by simpa using hys⟩

theorem Ticking.advance (hl : l ∈ timingOrder) (h : Ticking now k₀ m₀ l k m done (x :: rest)) :
    k.w.worker.links.next x = rest.head? ∧
      ((∃ k', k.check os clock now x = .ok k' ∧
        ∃ m', Ticking now k₀ m₀ l k' m' (done ++ [x]) rest) ∨
      ∃ f, k.check os clock now x = .error (f, k₀.delivered ++ k₀.w.notified now (m₀ l)) ∧
        k₀.w.halts now (m₀ l)) := by
  obtain ⟨front, hfront⟩ := h.suffix
  have hdll := h.resting.lists.dll l
  rw [← hfront] at hdll
  have hnext : k.w.worker.links.next x = rest.head? := hdll.1.next_eq
  have hx : x ∈ m l := h.suffix.mem List.mem_cons_self
  have hrest : x ∉ rest := (List.nodup_cons.mp hdll.nodup.of_append_right).1
  obtain ⟨hcell, hwind⟩ := h.pending x (Or.inl List.mem_cons_self)
  have hfires : k.w.fires now x = k₀.w.fires now x := fires_congr hcell hwind
  have hspent : k.w.spent x = k₀.w.spent x := congrArg SessionCell.spent hcell
  have hwhole : m₀ l = (done ++ [x]) ++ rest := by rw [h.whole, List.append_assoc]; rfl
  refine ⟨hnext, ?_⟩
  unfold Tick.check
  rw [hfires]
  by_cases hf : k₀.w.fires now x = true
  · rw [if_pos hf]
    dsimp only
    have hdone : (done ++ [x]).filter (k₀.w.fires now) = done.filter (k₀.w.fires now) ++ [x] := by
      rw [List.filter_append, List.filter_cons_of_pos hf, List.filter_nil]
    by_cases hsp : k₀.w.spent x = true
    · -- 待ち終えた session に知らせると、process が終わる
      refine Or.inr ⟨.invalidActionType, ?_, x, ?_, hsp⟩
      · rw [notifyTimeout_of_spent _ _ h.resting hx (hspent.trans hsp)]
        show Except.error _ = _
        rw [h.delivered, hwhole, TimedWorker.notified, List.filter_append, hdone,
          List.append_assoc, List.append_assoc, upTo_append_of_forall h.forall_unspent,
          List.singleton_append, upTo, if_pos hsp]
      · rw [hwhole, List.filter_append, hdone]
        simp
    · obtain ⟨w', m', htake, htaken⟩ := notifyTimeout_spec (os k.delivered.length)
        (clock k.delivered.length) h.resting hl hx (hspent.trans (by simpa using hsp))
      rw [htake]
      refine Or.inl ⟨_, rfl, m', htaken.resting, hwhole, ?_, ?_, ?_, ?_, ?_⟩
      · exact htaken.suffix rest hrest ((List.suffix_cons x rest).trans h.suffix)
      · exact fun j hj hjl => (htaken.elsewhere j hj hjl).trans (h.elsewhere j hj hjl)
      · -- 知らせた session は、残りにも他の timing list にもいない
        intro y hy
        have hyx : y ≠ x := by
          rintro rfl
          rcases hy with hy | ⟨j, hj, hjl, hy⟩
          · exact hrest hy
          · exact hjl (h.resting.lists.disjoint ((h.elsewhere j hj hjl).symm ▸ hy) hx)
        obtain ⟨hc, hu⟩ := htaken.others y hyx
        have hpend := h.pending y (hy.imp (List.mem_cons_of_mem x) id)
        exact ⟨hc.trans hpend.1, hu.trans hpend.2⟩
      · rw [hdone, h.delivered, List.append_assoc]
      · rintro ⟨y, hy, hys⟩
        rw [hdone] at hy
        rcases List.mem_append.mp hy with hy | hy
        · exact h.unspent ⟨y, hy, hys⟩
        · rw [List.mem_singleton] at hy
          exact hsp (hy ▸ hys)
  · rw [if_neg hf]
    have hdone : (done ++ [x]).filter (k₀.w.fires now) = done.filter (k₀.w.fires now) := by
      rw [List.filter_append, List.filter_cons_of_neg hf, List.filter_nil, List.append_nil]
    refine Or.inl ⟨k, rfl, m, h.resting, hwhole, (List.suffix_cons x rest).trans h.suffix,
      h.elsewhere, ?_, ?_, ?_⟩
    · rintro y (hy | hy)
      · exact h.pending y (Or.inl (List.mem_cons_of_mem x hy))
      · exact h.pending y (Or.inr hy)
    · rw [hdone]
      exact h.delivered
    · unfold TimedWorker.halts
      rw [hdone]
      exact h.unspent

/-- **一つの list を辿ると、その list の締め切りを過ぎたと見えた session に知らせている。** -/
theorem checkEventsTiming2_spec {fuel : Nat} (hl : l ∈ timingOrder) (h : Resting k.w m)
    (hfuel : (m l).length ≤ fuel) :
    (∃ k' m', checkEventsTiming2 os clock now fuel k l = .ok k' ∧
      Ticking now k m l k' m' (m l) []) ∨
    ∃ f, checkEventsTiming2 os clock now fuel k l
        = .error (f, k.delivered ++ k.w.notified now (m l)) ∧ k.w.halts now (m l) := by
  have hvisit : ∀ (k' : Tick) x rest, (∃ m' done, Ticking now k m l k' m' done (x :: rest)) →
      k'.w.worker.links.next x = rest.head? ∧
        ((∃ t, k'.check os clock now x = .ok t ∧ ∃ m' done, Ticking now k m l t m' done rest) ∨
        ∃ e, k'.check os clock now x = .error e ∧
          ∃ f, e = (f, k.delivered ++ k.w.notified now (m l)) ∧ k.w.halts now (m l)) := by
    rintro k' x rest ⟨m', done, hw⟩
    rcases hw.advance hl with ⟨hnext, ⟨t, ht, m'', hw'⟩ | ⟨f, hf, hhalt⟩⟩
    · exact ⟨hnext, Or.inl ⟨t, ht, m'', _, hw'⟩⟩
    · exact ⟨hnext, Or.inr ⟨_, hf, f, rfl, hhalt⟩⟩
  have hcases := walkSaved_cases (Fault.endless, [])
    (P := fun k' rest => ∃ m' done, Ticking now k m l k' m' done rest) hvisit
    ⟨m, [], .start h⟩ hfuel
  unfold checkEventsTiming2
  rw [(h.lists.dll l).1.head_eq]
  rcases hcases with ⟨k', hk', m', done, hw⟩ | ⟨e, he, f, rfl, hhalt⟩
  · refine Or.inl ⟨k', m', hk', ?_⟩
    have hdone : m l = done := hw.whole.trans (List.append_nil _)
    rw [hdone]
    exact hw
  · exact Or.inr ⟨f, he, hhalt⟩

theorem notified_congr {w w' : TimedWorker} {xs : List Nat}
    (h : ∀ y ∈ xs, w'.cell y = w.cell y ∧ w'.windUp y = w.windUp y) :
    w'.notified now xs = w.notified now xs := by
  unfold TimedWorker.notified
  rw [List.filter_congr fun y hy => fires_congr (h y hy).1 (h y hy).2]
  refine upTo_congr fun y hy => ?_
  exact congrArg SessionCell.spent (h y (List.mem_of_mem_filter hy)).1

/-- **`l` の並びを順に辿って、締め切りを過ぎたと見えた session に知らせる。** -/
theorem timing_lists_spec {fuel : Nat} : ∀ (ls : List WorkerList) (k : Tick)
    (m : WorkerList → List Nat), ls.Nodup → (∀ l ∈ ls, l ∈ timingOrder) → Resting k.w m →
    (∀ l ∈ ls, (m l).length ≤ fuel) →
    deliveries (ls.foldlM (checkEventsTiming2 os clock now fuel) k)
      = k.delivered ++ k.w.notified now (ls.flatMap m)
  | [], k, m, _, _, _, _ => (List.append_nil _).symm
  | l :: ls, k, m, hnodup, horder, h, hfuel => by
    obtain ⟨hnot, hnodup⟩ := List.nodup_cons.mp hnodup
    obtain ⟨hl, horder⟩ := List.forall_mem_cons.mp horder
    obtain ⟨hfuell, hfuel⟩ := List.forall_mem_cons.mp hfuel
    have hne : ∀ j ∈ ls, j ≠ l := fun j hj he => hnot (he ▸ hj)
    rw [List.foldlM_cons, List.flatMap_cons]
    have hspec := @checkEventsTiming2_spec now k m l os clock fuel hl h hfuell
    rcases hspec with ⟨k', m', hk', hw⟩ | ⟨f, hf, hhalt⟩
    · -- 残りの list は変わっていない
      have hsame : ∀ j ∈ ls, m' j = m j := fun j hj => hw.elsewhere j (horder j hj) (hne j hj)
      have hflat : ls.flatMap m' = ls.flatMap m := List.flatMap_congr hsame
      have hcells : ∀ y ∈ ls.flatMap m, k'.w.cell y = k.w.cell y ∧ k'.w.windUp y = k.w.windUp y := by
        intro y hy
        obtain ⟨j, hj, hy⟩ := List.mem_flatMap.mp hy
        exact hw.pending y (Or.inr ⟨j, horder j hj, hne j hj, hy⟩)
      rw [hk', ok_bind, timing_lists_spec ls k' m' hnodup horder hw.resting
        (fun j hj => by rw [hsame j hj]; exact hfuel j hj), hflat, notified_congr hcells,
        hw.delivered, List.append_assoc]
      unfold TimedWorker.notified
      rw [List.filter_append, upTo_append_of_forall hw.forall_unspent]
    · rw [hf, error_bind]
      show k.delivered ++ k.w.notified now (m l) = _
      unfold TimedWorker.notified
      rw [List.filter_append, upTo_append_of_exists hhalt]

/-- worker が辿る順に並べた、timing list の session。 -/
def scanned (m : WorkerList → List Nat) : List Nat := timingOrder.flatMap m

/-- **`esq_session_timing` が知らせるのは、辿る順で終わりになる所までの、
締め切りを過ぎたと見えた session である。** -/
theorem esqSessionTiming_delivers {w : TimedWorker} (h : Resting w m) {fuel : Nat}
    (hfuel : ∀ l ∈ timingOrder, (m l).length ≤ fuel) :
    deliveries (esqSessionTiming os clock fuel (some now) w) = w.notified now (scanned m) := by
  have hlists := @timing_lists_spec now os clock fuel timingOrder { w, delivered := [] } m
    (by decide) (fun _ hl => hl) h hfuel
  unfold esqSessionTiming
  dsimp only
  cases hrun : timingOrder.foldlM (checkEventsTiming2 os clock now fuel) { w, delivered := [] } with
  | error e =>
    rw [hrun] at hlists
    exact hlists
  | ok k =>
    rw [hrun] at hlists
    refine Eq.trans ?_ hlists
    rw [ok_bind]
    show Tick.delivered (if _ then _ else _) = k.delivered
    split <;> rfl

end

/-! ## 締め切りに達した session に知らせるか -/

/-- 前にいる待ち終えた session で process が終わり、`x` まで辿らない。 -/
def Obstructed (w : TimedWorker) (m : WorkerList → List Nat) (now : TimeVal) (x : Nat) : Prop :=
  ∃ front back, scanned m = front ++ x :: back ∧
    ∃ y ∈ front, w.fires now y = true ∧ w.spent y = true

/--
締め切りに達したときに限って知らせる条件。

前に待ち終えた hash lock の session が残っていなければ、時刻の比較が正しいこと。
残っていて先に process が終わるなら、締め切りにまだ達していないこと。
-/
def TimingCond (w : TimedWorker) (m : WorkerList → List Nat) (windUp now : TimeVal) (x : Nat) :
    Prop :=
  (¬ Obstructed w m now x →
    TickCond windUp (w.session x).timeouts (w.session x).timeoutms now) ∧
  (Obstructed w m now x →
    ¬ DeadlinePassed windUp (w.session x).timeouts (w.session x).timeoutms now)

section

variable {w : TimedWorker} {m : WorkerList → List Nat} {l : WorkerList} {x : Nat} {now : TimeVal}

theorem scanned_nodup (h : Resting w m) : (scanned m).Nodup := by
  refine List.nodup_flatMap.mpr ⟨fun l _ => (h.lists.dll l).nodup, ?_⟩
  refine List.Pairwise.imp (R := fun a b => a ≠ b) (fun {a b} hab y hy hy' => ?_) (by decide)
  exact hab (h.lists.disjoint hy hy')

theorem mem_notified_iff (h : Resting w m) (hl : l ∈ timingOrder) (hx : x ∈ m l) :
    x ∈ w.notified now (scanned m) ↔ w.fires now x = true ∧ ¬ Obstructed w m now x := by
  have hmem : x ∈ scanned m := List.mem_flatMap.mpr ⟨l, hl, hx⟩
  obtain ⟨front, back, hscan⟩ := List.append_of_mem hmem
  have hnodup := scanned_nodup h
  rw [hscan] at hnodup
  have hfront : x ∉ front := fun hm => (List.nodup_append.mp hnodup).2.2 x hm x
    List.mem_cons_self rfl
  have hobs : Obstructed w m now x ↔ ∃ y ∈ front, w.fires now y = true ∧ w.spent y = true := by
    refine ⟨?_, fun hy => ⟨front, back, hscan, hy⟩⟩
    rintro ⟨front', back', hscan', hy⟩
    have hnodup' := scanned_nodup h
    rw [hscan'] at hnodup'
    have hfront' : x ∉ front' := fun hm => (List.nodup_append.mp hnodup').2.2 x hm x
      List.mem_cons_self rfl
    have hback' : x ∉ back' := (List.nodup_cons.mp hnodup'.of_append_right).1
    obtain ⟨rfl, -, -⟩ := (List.append_cons_inj_of_notMem hfront' hback').mp (hscan'.symm.trans hscan)
    exact hy
  unfold TimedWorker.notified
  rw [hobs, hscan, List.filter_append]
  by_cases hf : w.fires now x = true
  · rw [List.filter_cons_of_pos hf, mem_upTo_iff fun hm => hfront (List.mem_of_mem_filter hm)]
    simp only [hf, List.mem_filter, true_and, and_imp, not_exists, not_and, Bool.not_eq_true]
  · refine iff_of_false (fun hm => ?_) fun hm => hf hm.1
    have hm := upTo_subset hm
    rw [← List.filter_append] at hm
    exact hf (List.mem_filter.mp hm).2

/--
**timing list で待つ session に `ACTION_NOTIFY_TIMEOUT` を渡すことと、待ち始めてから
`timeouts` 秒と `timeoutms` ミリ秒が経ったこととは、`TimingCond` のときに限って一致する。**

どんな時刻に待ち始めても、どんな後の時刻に見ても、他の session がどう待っていてもよい。
-/
theorem session_timing_iff {windUp : TimeVal} (h : Resting w m) (hl : l ∈ timingOrder)
    (hx : x ∈ m l) (hwound : w.windUp x = .record windUp)
    (hs : 0 ≤ (w.session x).timeouts) (hsint : (w.session x).timeouts < 2 ^ 31)
    (hms : 0 ≤ (w.session x).timeoutms) (hmsint : (w.session x).timeoutms < 2 ^ 31)
    (hlater : windUp.micros ≤ now.micros) (os : Nat → Int) (clock : Nat → Option TimeVal) :
    (∃ enough, ∀ fuel, enough ≤ fuel →
      (x ∈ deliveries (esqSessionTiming os clock fuel (some now) w) ↔
        DeadlinePassed windUp (w.session x).timeouts (w.session x).timeoutms now)) ↔
      TimingCond w m windUp now x := by
  have htick := timesOut_iff hs hsint hms hmsint hlater
  have hfires : w.fires now x = true ↔ timesOut (.record windUp) (w.session x).timeouts
      (w.session x).timeoutms now = true := by
    unfold TimedWorker.fires
    rw [hwound]
  obtain ⟨enough, henough⟩ : ∃ enough, ∀ l ∈ timingOrder, (m l).length ≤ enough :=
    ⟨(scanned m).length, fun l hl => ((h.lists.dll l).nodup.subperm
      fun _ hy => List.mem_flatMap.mpr ⟨l, hl, hy⟩).length_le⟩
  have hrun : ∀ fuel, enough ≤ fuel →
      (x ∈ deliveries (esqSessionTiming os clock fuel (some now) w) ↔
        w.fires now x = true ∧ ¬ Obstructed w m now x) := by
    intro fuel hfuel
    rw [esqSessionTiming_delivers h fun l hl => (henough l hl).trans hfuel]
    exact mem_notified_iff h hl hx
  have hone : (∃ enough, ∀ fuel, enough ≤ fuel →
      (x ∈ deliveries (esqSessionTiming os clock fuel (some now) w) ↔
        DeadlinePassed windUp (w.session x).timeouts (w.session x).timeoutms now)) ↔
      (w.fires now x = true ∧ ¬ Obstructed w m now x ↔
        DeadlinePassed windUp (w.session x).timeouts (w.session x).timeoutms now) := by
    constructor
    · rintro ⟨n, hn⟩
      exact (hrun (n + enough) (by omega)).symm.trans (hn (n + enough) (by omega))
    · exact fun hiff => ⟨enough, fun fuel hfuel => (hrun fuel hfuel).trans hiff⟩
  rw [hone, hfires]
  unfold TimingCond
  by_cases hobs : Obstructed w m now x
  · -- 先に終わるので知らせは届かない
    simp only [hobs, not_true_eq_false, and_false, false_iff, false_imp_iff, true_and, true_imp_iff]
  · simp only [hobs, not_false_eq_true, and_true, true_imp_iff, false_imp_iff]
    exact htick

end

/-- 0 は single shot、1 は hash lock を待つ session である。 -/
def timedSession : Nat → Session
  | 0 => { magic := true, sessionType := .socketCb, lc := .single .windedUp, timeoutms := 50 }
  | 1 => { magic := true, sessionType := .waitForHashLock, timeouts := 2 }
  | _ => {}

def timedLists : WorkerList → List Nat
  | .of0msTo100ms => [0]
  | .of1sTo10s => [1]
  | _ => []

def noon : TimeVal := ⟨100, 0, by decide, by decide⟩

def timedWorker : TimedWorker where
  worker := { Worker.init with
    session := timedSession
    ends := fun l => { head := (timedLists l).head?, tail := (timedLists l).getLast? } }
  wait := fun _ => { lc := .windedUp }
  mco := fun _ => .start
  windUp := fun _ => .record noon
  eventWaitMax := 5
  stopFlag := false

theorem timedWorker_resting : Resting timedWorker timedLists where
  lists := by
    refine ⟨fun l => ?_, fun {i j x} => ?_⟩
    · cases l with
      | of0msTo100ms => exact ⟨⟨rfl, rfl⟩, ⟨rfl, rfl⟩⟩
      | of1sTo10s => exact ⟨⟨rfl, rfl⟩, ⟨rfl, rfl⟩⟩
      | _ => exact ⟨rfl, rfl⟩
    · cases i <;> cases j <;> simp only [timedLists, List.mem_cons, List.not_mem_nil, or_false,
        implies_true, false_imp_iff] <;> omega
  magic := by
    intro l x hx
    cases l <;> simp only [timedLists, List.mem_cons, List.not_mem_nil, or_false] at hx
    all_goals subst hx; rfl
  rests := by
    intro l x hx
    cases l with
    | of0msTo100ms =>
      obtain rfl := List.mem_singleton.mp hx
      exact .plain (.singleWindedUp (s := timedSession 0) rfl rfl) (by decide)
    | of1sTo10s =>
      obtain rfl := List.mem_singleton.mp hx
      exact SessionCell.Rests.hashWindedUp (c := timedWorker.cell 1) rfl rfl rfl
    | _ => cases hx

theorem timedWorker_unobstructed (now : TimeVal) (x : Nat) :
    ¬ Obstructed timedWorker timedLists now x := by
  rintro ⟨front, back, -, y, -, -, hspent⟩
  have : timedWorker.spent y = false := Bool.and_false _
  rw [this] at hspent
  cases hspent

/-- 50 ミリ秒を待つ session を 60 ミリ秒後に見るとき。 -/
theorem session_timing_sample :
    ∃ enough, ∀ fuel, enough ≤ fuel →
      (0 ∈ deliveries (esqSessionTiming (fun _ => 0) (fun _ => none) fuel
          (some ⟨100, 60000, by decide, by decide⟩) timedWorker) ↔
        DeadlinePassed noon 0 50 ⟨100, 60000, by decide, by decide⟩) :=
  (session_timing_iff timedWorker_resting (l := .of0msTo100ms) (by decide) (by decide) rfl
    (by decide) (by decide) (by decide) (by decide) (by decide) _ _).mpr
    ⟨fun _ => ⟨fun _ => ⟨by decide, by decide, by decide, by decide⟩, fun h => absurd rfl h⟩,
      fun h => absurd h (timedWorker_unobstructed _ _)⟩

/-- **50 ミリ秒を待つ session が、1 ミリ秒後に時間切れを受ける。** -/
theorem session_timing_too_early :
    Resting timedWorker timedLists ∧ 0 ∈ timedLists .of0msTo100ms ∧
      timedWorker.windUp 0 = .record noon ∧ (timedWorker.session 0).timeoutms = 50 ∧
      ¬ ∃ enough, ∀ fuel, enough ≤ fuel →
        (0 ∈ deliveries (esqSessionTiming (fun _ => 0) (fun _ => none) fuel
            (some ⟨100, 1000, by decide, by decide⟩) timedWorker) ↔
          DeadlinePassed noon 0 50 ⟨100, 1000, by decide, by decide⟩) := by
  refine ⟨timedWorker_resting, by decide, rfl, rfl, ?_⟩
  rintro ⟨enough, h⟩
  have hfuel : ∀ l ∈ timingOrder, (timedLists l).length ≤ enough + 1 := by
    intro l _
    cases l <;> exact Nat.le_add_left _ _
  have hpassed := h (enough + 1) (by omega)
  rw [esqSessionTiming_delivers timedWorker_resting hfuel] at hpassed
  exact absurd (hpassed.mp (by decide)) (by decide)

end Esq
