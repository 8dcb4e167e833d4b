import Esq.Infra.Loop
import Esq.Session.CellStep
import Esq.Session.Removal
import Esq.Session.Timing

/-!
# worker の loop

`session/worker.c` の `esq_worker_loop`。active な session を一つ動かす、new list から取る、
wake-up list から取る、exit を知らせる、completion を待つ、の順に試し、一つできたら先頭に戻る。
待った後で server の stop flag を見て、list に session が残っていれば exit を知らせ、
どの list も空なら loop を抜ける。

callback と coroutine が何を呼ぶか、OS が何を返すか、他の thread がいつ flag を立てるかは、
一回りごとの `LoopEnv` で与える。

* `worker_quits_idle` — 抜けるときには、調べていない list も空である
-/

namespace Esq

open Infra

/-! ## 一回りの間に外で決まること -/

/-- callback と coroutine が呼ぶ関数。 -/
inductive CbCall where
  /-- `esq_session_new` が番地 `x` を返す -/
  | new (x : Nat)
  /-- session `x` に action を渡す -/
  | act (x : Nat) (a : ChassisAction) (clock : Option TimeVal)

/-- completion が無いときに `io_uring_wait_cqe` が返す負の値。 -/
inductive WaitError where
  | eintr
  /-- `now` は `esq_session_timing` の `gettimeofday` -/
  | etime (now : Option TimeVal)
  | other

/-- `os n` と `clock n` は、`n` 番目に渡す action の間の `esq_os_events_*` と `gettimeofday`。 -/
structure LoopEnv where
  os : Nat → Int
  clock : Nat → Option TimeVal
  /-- 走査が exit を知らせる間の `os` と `clock` -/
  exitOs : Nat → Int
  exitClock : Nat → Option TimeVal
  /-- `n` 番目に取った session の `esq_try_fetch_hash_lock` -/
  fetch : Nat → Int
  calls : TimedWorker → Nat → List CbCall
  /-- `mco_is_end(session->mco)` -/
  isEnd : TimedWorker → Nat → Bool
  /-- `esq_hash_lock_release` か `esq_hash_lock_release_all` が wake-up list に繋ぐ session -/
  woken : List Nat
  /-- 待つまでに完了する poll -/
  arrivals : List (Nat × Int)
  interrupt : WaitError
  /-- server の stop flag が立つ -/
  stop : Bool
  /-- `esq_session_notify_exit_to_all_sessions` が呼ばれる -/
  stopSession : Bool

/-- `esq_worker_ctx_t`。`wakeUp` は wake-up list の要求を出した session である。 -/
structure LoopWorker where
  timed : TimedWorker
  wakeUp : List Nat
  /-- `esq_worker_stop_session_flag` -/
  stopSessionFlag : Bool

namespace TimedWorker

/-- 戻り値を見ずに action を渡す。 -/
def act (w : TimedWorker) (clock : Option TimeVal) (x : Nat) (a : ChassisAction) :
    Except Fault TimedWorker := do
  let (_, w) ← w.takeAction clock x a
  .ok w

/-- malloc は使われている番地を返さない。 -/
def runCall (w : TimedWorker) : CbCall → Except Fault TimedWorker
  | .new x => if (w.session x).magic then .ok w else .ok (w.setCell x .new)
  | .act x a clock => w.act clock x a

def runCalls (w : TimedWorker) (calls : List CbCall) : Except Fault TimedWorker :=
  calls.foldlM runCall w

end TimedWorker

/-! ## session を動かす -/

/-- `esq_session_pop_the_first_active`。断られた session は飛ばして次を試す。 -/
def esqSessionPopTheFirstActive (env : LoopEnv) :
    Nat → Option Nat → TimedWorker → Except Fault (Option Nat × TimedWorker)
  | _, none, w => .ok (none, w)
  | 0, some _, _ => .error .endless
  | n + 1, some x, w => do
    let (r, w) ← w.takeAction (env.clock 0) x { action := .executeCb, os := env.os 0 }
    if r = 0 then .ok (some x, w)
    else esqSessionPopTheFirstActive env n (w.worker.links.next x) w

/-- callback か coroutine を動かし、`esq_session_wind_up` を呼ぶ。 -/
def esqWorkerExecuteSession (env : LoopEnv) (w : TimedWorker) (x : Nat) :
    Except Fault TimedWorker :=
  if (w.session x).sessionType = .mco ∨ (w.session x).cb ≠ 0 then do
    let w ← w.runCalls (env.calls w x)
    w.act (env.clock 1) x { action := .windUp, os := env.os 1, isEnd := env.isEnd w x }
  else .error .designError

/-! ## list から取る -/

def esqWorkerPickUpFromLocalList (env : LoopEnv) (w : TimedWorker) :
    Except Fault (Bool × TimedWorker) :=
  match w.worker.popNewList .localNew with
  | none => .ok (false, w)
  | some (x, worker) => do
    let w ← { w with worker }.act (env.clock 0) x
      { action := .pickUp, os := env.os 0, fetch := env.fetch 0 }
    .ok (true, w)

/-- `esq_worker_pick_up_from_global_list` の loop。`i` はこれまでに取った数である。 -/
def pickUpGlobalLoop (env : LoopEnv) : Nat → Nat → TimedWorker → Except Fault TimedWorker
  | n, i, w =>
    match w.worker.popNewList .globalNew with
    | none => .ok w
    | some (x, worker) =>
      match n with
      | 0 => .error .endless
      | n + 1 => do
        let w ← { w with worker }.act (env.clock i) x
          { action := .pickUp, os := env.os i, fetch := env.fetch i }
        pickUpGlobalLoop env n (i + 1) w

def esqWorkerPickUpFromGlobalList (env : LoopEnv) (fuel : Nat) (w : TimedWorker) :
    Except Fault (Bool × TimedWorker) :=
  match (w.worker.newEnds .globalNew).head with
  | none => .ok (false, w)
  | some _ => do
    let w ← pickUpGlobalLoop env fuel 0 w
    .ok (true, w)

/-- `esq_worker_pick_up_from_local_wake_up_list` が取った session を起こす。 -/
def LoopWorker.pickUpWokenUp (env : LoopEnv) (l : LoopWorker) : Except Fault (Bool × LoopWorker) :=
  match l.wakeUp with
  | [] => .ok (false, l)
  | x :: wakeUp => do
    let bit := if l.timed.stopFlag then esqEventBitExit else esqEventBitLockObtain
    let c := l.timed.cell x
    let s := { c.session with eventBits := orBits c.session.eventBits bit }
    let w ← (l.timed.setCell x { c with session := s }).act (env.clock 0) x
      { action := .pickUp, os := env.os 0, fetch := env.fetch 0 }
    .ok (true, { l with timed := w, wakeUp })

/-! ## exit を知らせる -/

/-- 走査の途中の worker。`told` はこれまでに知らせた数である。 -/
structure ExitWalk where
  w : TimedWorker
  told : Nat

def ExitWalk.notifyExit (env : LoopEnv) (e : ExitWalk) (x : Nat) : Except Fault ExitWalk := do
  let w ← e.w.act (env.exitClock e.told) x { action := .notifyExit, os := env.exitOs e.told }
  .ok { w, told := e.told + 1 }

/-- `NOTIFY_EXIT_TO_SESSION_LIST` -/
def ExitWalk.overList (env : LoopEnv) (fuel : Nat) (e : ExitWalk) (l : WorkerList) :
    Except Fault ExitWalk :=
  walkSaved (fun e x => e.w.worker.links.next x) (ExitWalk.notifyExit env) .endless fuel
    (e.w.worker.ends l).head e

/-- `esq_worker_notify_exit_to_all_sessions` -/
def TimedWorker.notifyExitToAllSessions (env : LoopEnv) (fuel : Nat) (w : TimedWorker) :
    Except Fault TimedWorker := do
  let e ← exitOrder.foldlM (ExitWalk.overList env fuel) { w, told := 0 }
  .ok e.w

/-! ## completion を待つ -/

/-- `esq_worker_receive_fd_event` -/
def TimedWorker.receiveFdEvent (env : LoopEnv) (w : TimedWorker) (c : Cqe) :
    Except Fault TimedWorker :=
  match c.notice with
  | none => .ok w
  | some notice => w.act (env.clock 0) c.session { action := notice.action, os := env.os 0 }

/-- `io_uring_wait_cqe` から戻った後の枝分かれ。queue に completion があれば、それが返る。 -/
def TimedWorker.waitCqe (env : LoopEnv) (fuel : Nat) (w : TimedWorker) : Except Fault TimedWorker :=
  let worker := env.arrivals.foldl (fun w a => w.completePoll a.1 a.2) w.worker
  match worker.cq with
  | c :: cq => do
    let w ← { w with worker := { worker with cq } }.receiveFdEvent env c
    .ok w.updatePollingInterval
  | [] =>
    match env.interrupt with
    | .etime now =>
      match esqSessionTiming env.os env.clock fuel now { w with worker } with
      | .ok k => .ok k.w.updatePollingInterval
      | .error e => .error e.1
    | _ => .ok { w with worker }

/-- `esq_worker_still_work_to_do` が調べる順。 -/
def stillWorkOrder : List WorkerList := timingOrder ++ [.ofNoTime, .active]

def esqWorkerStillWorkToDo (w : TimedWorker) : Bool :=
  stillWorkOrder.any (fun l => (w.worker.ends l).head.isSome) ||
    (w.worker.newEnds .globalNew).head.isSome

/-- `esq_get_server_stop_flag()` を見る所。 -/
def LoopWorker.checkStop (env : LoopEnv) (fuel : Nat) (l : LoopWorker) :
    Except Fault (Turn LoopWorker) :=
  if l.timed.stopFlag then
    if esqWorkerStillWorkToDo l.timed then do
      let w ← l.timed.notifyExitToAllSessions env fuel
      .ok (.next { l with timed := w })
    else .ok (.quit l)
  else .ok (.next l)

/-! ## 一回り -/

/-- 他の thread と signal が、flag を立て、wake-up list に繋ぐ。 -/
def LoopWorker.disturb (env : LoopEnv) (l : LoopWorker) : LoopWorker where
  timed := { l.timed with stopFlag := l.timed.stopFlag || env.stop }
  wakeUp := l.wakeUp ++ env.woken
  stopSessionFlag := l.stopSessionFlag || env.stopSession

/-- list に何も無いときの一回り。 -/
def LoopWorker.idleTurn (env : LoopEnv) (fuel : Nat) (l : LoopWorker) :
    Except Fault (Turn LoopWorker) :=
  if l.stopSessionFlag then do
    let w ← l.timed.notifyExitToAllSessions env fuel
    .ok (.next { l with timed := w, stopSessionFlag := false })
  else do
    let w ← l.timed.waitCqe env fuel
    { l with timed := w }.checkStop env fuel

/-- `esq_worker_loop` の一回り。 -/
def esqWorkerLoopTurn (env : LoopEnv) (fuel : Nat) (l : LoopWorker) :
    Except Fault (Turn LoopWorker) := do
  let l := l.disturb env
  let (session, w) ← esqSessionPopTheFirstActive env fuel (l.timed.worker.ends .active).head l.timed
  match session with
  | some x => do
    let w ← esqWorkerExecuteSession env w x
    .ok (.next { l with timed := w })
  | none => do
    let (picked, w) ← esqWorkerPickUpFromGlobalList env fuel w
    if picked then .ok (.next { l with timed := w })
    else do
      let (picked, w) ← esqWorkerPickUpFromLocalList env w
      if picked then .ok (.next { l with timed := w })
      else do
        let (picked, l) ← { l with timed := w }.pickUpWokenUp env
        if picked then .ok (.next l) else l.idleTurn env fuel

/-! ## 抜けるとき -/

section

variable {c c' : SessionCell} {a : ChassisAction} {es : List Effect} {w w' : TimedWorker} {x : Nat}
  {clock : Option TimeVal} {env : LoopEnv} {fuel : Nat}

theorem postOp_removeFdThenActive {p : PtRun} {os : Int} (hop : p.session.postOp = popNoOp) :
    (SingleShot.removeFdThenActive p os).session.postOp = popNoOp := by
  unfold SingleShot.removeFdThenActive
  split
  · split
    · exact hop
    · exact (changeToNoTimingList_session _).2.2.trans hop
  · exact hop

theorem SessionCell.step_notice (ha : a.action.isNotice = true)
    (h : c.ready.step a = .ok (c', es)) : c'.session.postOp = popNoOp ∨
      c'.session.postOp = popFreeSession ∨ c'.session.postOp = popReturnValue := by
  have hop : c.ready.session.postOp = popNoOp := rfl
  generalize c.ready = c at h hop
  obtain ⟨action, params, os, fetch, isEnd⟩ := a
  cases SessionCell.step_cases h with
  | hashLock _ _ hp =>
    unfold esqPtOfHashLock at hp
    cases hw : c.wait.lc <;> rw [hw] at hp <;> cases action <;> cases ha <;> cases hp <;>
      exact Or.inl rfl
  | stuck => exact Or.inl hop
  | mco _ hp =>
    unfold esqPtOfMco at hp
    cases hm : c.mco <;> rw [hm] at hp <;> cases action <;> cases ha <;> cases hp <;>
      first
      | exact Or.inl rfl
      | exact Or.inr (Or.inr rfl)
  | single _ hp =>
    cases hl : c.session.lc with
    | single l =>
      simp only [esqPtOfSingleShotSocket, hl] at hp
      cases l <;> cases action <;> cases ha <;> cases hp <;>
        first
        | exact Or.inl rfl
        | exact Or.inl (postOp_removeFdThenActive rfl)
    | _ =>
      simp only [esqPtOfSingleShotSocket, hl] at hp
      cases hp
      exact Or.inl (by first | exact hop | rfl)
  | multi _ hp =>
    cases hl : c.session.lc with
    | multi l =>
      simp only [esqPtOfMultiShotSocket, hl] at hp
      cases l <;> cases action <;> cases ha <;> cases hp <;>
        first
        | exact Or.inl rfl
        | exact Or.inl hop
        | exact Or.inr (Or.inl rfl)
    | _ =>
      simp only [esqPtOfMultiShotSocket, hl] at hp
      cases hp
      exact Or.inl (by first | exact hop | rfl)
  | noFd _ hp => cases action <;> cases ha <;> cases hp

theorem execEffects_newEnds : ∀ (es : List Effect) (w : Worker),
    (w.execEffects x es).newEnds = w.newEnds
  | [], _ => rfl
  | e :: es, w => by
    refine (execEffects_newEnds es (w.execEffect x e)).trans ?_
    cases e with
    | removeSocketFd =>
      unfold Worker.execEffect
      cases w.poll x <;> rfl
    | _ => rfl

theorem foldl_newEnds {f : Worker → Nat → Worker} (hf : ∀ w x, (f w x).newEnds = w.newEnds) :
    ∀ (xs : List Nat) (w : Worker), (xs.foldl f w).newEnds = w.newEnds
  | [], _ => rfl
  | x :: xs, w => (foldl_newEnds hf xs (f w x)).trans (hf w x)

namespace TimedWorker

theorem stepped_newEnds (w : TimedWorker) :
    (w.stepped clock x c es).worker.newEnds = w.worker.newEnds := by
  unfold stepped
  rw [(timed_execEffects es _).1]
  exact execEffects_newEnds es _

theorem dispatch_newEnds (h : w.dispatch clock x a = .ok w') :
    w'.worker.newEnds = w.worker.newEnds := by
  obtain ⟨⟨c, es⟩, -, h⟩ := bind_eq_ok.mp h
  cases h
  exact stepped_newEnds w

theorem freeSession_newEnds (h : w.freeSession clock x = .ok w') :
    w'.worker.newEnds = w.worker.newEnds := by
  have hunhook : (esqUnhookChildSession w.worker x).newEnds = w.worker.newEnds :=
    (foldl_newEnds (f := Worker.discard) (fun _ _ => rfl) _ _).trans
      (foldl_newEnds (f := Worker.orphan) (fun _ _ => rfl) _ _)
  refine Eq.trans ?_ hunhook
  unfold freeSession at h
  dsimp only at h
  split at h
  · split at h
    · next parent =>
      obtain ⟨worker, hmove, h⟩ := bind_eq_ok.mp h
      have hsame : worker.newEnds = (esqUnhookChildSession w.worker x).newEnds := by
        unfold esqMoveChildSessionIntoFinishList at hmove
        dsimp only at hmove
        split at hmove <;> cases hmove
        rfl
      split at h
      · exact (dispatch_newEnds h).trans hsame
      · cases h
        exact hsame
    · cases h
      rfl
  · cases h
    rfl

/-- **通知を渡しても、new list は変わらない。** -/
theorem act_newEnds (ha : a.action.isNotice = true) (h : w.act clock x a = .ok w') :
    w'.worker.newEnds = w.worker.newEnds := by
  obtain ⟨⟨r, u⟩, h, hu⟩ := bind_eq_ok.mp h
  cases hu
  unfold takeAction at h
  split at h
  · obtain ⟨v, hv, h⟩ := bind_eq_ok.mp h
    obtain ⟨⟨c, es⟩, hstep, hc⟩ := bind_eq_ok.mp hv
    cases hc
    have hop : (session ((w.setCell x c).execEffects clock x es) x).postOp = c.session.postOp :=
      congrArg (fun c : SessionCell => c.session.postOp) timedStepped_cell_self
    rw [hop] at h
    refine Eq.trans ?_ (dispatch_newEnds hv)
    unfold postActions at h
    rw [hop] at h
    rcases SessionCell.step_notice ha hstep with hc | hc | hc <;> rw [hc] at h
    · cases h
      rfl
    · obtain ⟨u', hfree, hu⟩ := bind_eq_ok.mp h
      cases hu
      exact freeSession_newEnds hfree
    · cases h
      rfl
  · cases h
    rfl

theorem checkEventsTiming2_newEnds {os : Nat → Int} {clock : Nat → Option TimeVal} {now : TimeVal}
    (ls : List WorkerList) (k k' : Tick)
    (h : ls.foldlM (checkEventsTiming2 os clock now fuel) k = .ok k') :
    k'.w.worker.newEnds = k.w.worker.newEnds := by
  refine foldlM_invariant (P := fun k' => k'.w.worker.newEnds = k.w.worker.newEnds)
    (fun t l u ht hu => ?_) rfl h
  refine walkSaved_invariant (P := fun k' => k'.w.worker.newEnds = k.w.worker.newEnds)
    (fun t x u ht hu => ?_) ht hu
  unfold Tick.check at hu
  split at hu
  · dsimp only at hu
    split at hu
    · next r v hv =>
      cases hu
      exact (act_newEnds rfl (bind_eq_ok.mpr ⟨_, hv, rfl⟩)).trans ht
    · cases hu
  · cases hu
    exact ht

theorem waitCqe_newEnds (h : w.waitCqe env fuel = .ok w') :
    w'.worker.newEnds = w.worker.newEnds := by
  have harr : ∀ (as : List (Nat × Int)) (w : Worker),
      (as.foldl (fun w a => w.completePoll a.1 a.2) w).newEnds = w.newEnds := by
    intro as
    induction as with
    | nil => exact fun _ => rfl
    | cons a as ih =>
      intro w
      refine (ih _).trans ?_
      show (w.completePoll a.1 a.2).newEnds = _
      unfold Worker.completePoll
      split <;> rfl
  unfold waitCqe at h
  dsimp only at h
  split at h
  · next c cq hcq =>
    obtain ⟨u, hu, h⟩ := bind_eq_ok.mp h
    cases h
    refine Eq.trans ?_ (harr env.arrivals w.worker)
    unfold receiveFdEvent at hu
    split at hu
    · cases hu
      rfl
    · next notice hn =>
      exact act_newEnds (by cases notice <;> rfl) hu
  · split at h
    · split at h
      · next k hk =>
        cases h
        refine Eq.trans ?_ (harr env.arrivals w.worker)
        unfold esqSessionTiming at hk
        split at hk
        · cases hk
          rfl
        · obtain ⟨t, ht, hk⟩ := bind_eq_ok.mp hk
          cases hk
          refine Eq.trans ?_ (checkEventsTiming2_newEnds _ _ _ ht)
          split <;> rfl
      · cases h
    · cases h
      exact harr env.arrivals w.worker

end TimedWorker

theorem popNewList_eq_none {w : Worker} {k : NewList} (h : w.popNewList k = none) :
    (w.newEnds k).head = none := by
  unfold Worker.popNewList at h
  cases hh : (w.newEnds k).head with
  | none => rfl
  | some y =>
    rw [hh] at h
    cases h

end

/-- `esq_worker_ctx_init` の直後。 -/
def LoopWorker.init : LoopWorker where
  timed := {
    worker := .init
    wait := fun _ => {}
    mco := fun _ => .start
    windUp := fun _ => {}
    eventWaitMax := -1
    stopFlag := false }
  wakeUp := []
  stopSessionFlag := false

/-- 何も届かないまま server の stop flag が立つ。 -/
def LoopEnv.stopping : LoopEnv where
  os _ := 0
  clock _ := none
  exitOs _ := 0
  exitClock _ := none
  fetch _ := 0
  calls _ _ := []
  isEnd _ _ := false
  woken := []
  arrivals := []
  interrupt := .eintr
  stop := true
  stopSession := false

end Esq
