import Esq.Session.Children
import Esq.Session.HashLockFifo

/-!
# hash lock を待つ session の系

session の `Heap`（`Esq.Session.Children`）と hash lock（`Esq.Session.HashLockFifo`）を合わせる。
`ACTION_PICK_UP` を受けた hash lock の session は `esq_try_fetch_hash_lock` でロックを求め、
その戻り値で先へ進む。

列に足した要求は、それを出した session が待つのをやめても抜けない。そうなる一歩を
`LockWorldSafe` が除く。

* 待つ session への通知（時間切れ、終了、event、子の完了）
* `timeouts <= 0` のまま塞がったロックを求めて、その場で断られること
* 列に要求を残したまま、または wake-up list に ctx を残したまま session が終わること
* 解放は `ReleaseSafe` に従う。従わない解放は列そのものを壊す

`no_abandoned_waiters` は、どの一歩もこれに従う実行では、列にある要求がどれも、ロックを持つか
待っている生きた session のものであることを言う。
-/

namespace Esq

open Infra

/-! ## 系 -/

structure LockWorld where
  family : FamilyRun
  run : LockRun

inductive LockWorldOp where
  /-- session への操作。`ACTION_PICK_UP` は `pickUp` と `wakeUp` が渡す -/
  | session (op : FamilyOp)
  /-- worker `w` が new list から取った session `x` に `ACTION_PICK_UP` を渡す -/
  | pickUp (x w : Nat) (mallocOk : Bool) (os : Int)
  /-- worker `w` が wake-up list から一つ取る -/
  | wakeUp (w : Nat) (mallocOk : Bool) (os : Int)
  /-- session `x` の `esq_hash_lock_release` -/
  | release (x : Nat) (idx : Int)
deriving DecidableEq, Repr

def CtxAddr.isSlotOf (x : Nat) : CtxAddr → Bool
  | .slot y _ => y = x
  | .heap _ => false

def HashLocks.renew (s : HashLocks) (x : Nat) : HashLocks :=
  { s with
    ctx := fun a => if a.isSlotOf x then {} else s.ctx a
    next := fun a => if a.isSlotOf x then none else s.next a
    nextInEsqSession := fun a => if a.isSlotOf x then none else s.nextInEsqSession a
    nextInLocalWakeUpList := fun a => if a.isSlotOf x then none else s.nextInLocalWakeUpList a
    hashLockCtxList := Function.update s.hashLockCtxList x none }

/-- `__wait_for_cpu` にいて、`ACTION_PICK_UP` を受けるとロックを求める。 -/
def SessionCell.Asks (c : SessionCell) : Prop :=
  c.session.sessionType = .waitForHashLock ∧ c.session.lc = .start ∧ c.wait.lc = .waitForCpu

instance (c : SessionCell) : Decidable c.Asks :=
  inferInstanceAs (Decidable (_ ∧ _ ∧ _))

/-- `__winded_up` で、ロック `idx` が空くのを待っている。 -/
def SessionCell.WaitsFor (c : SessionCell) (idx : Int) : Prop :=
  c.session.sessionType = .waitForHashLock ∧ c.session.lc = .start ∧ c.wait.lc = .windedUp
    ∧ c.wait.hashLockIdx = idx

instance (c : SessionCell) (idx : Int) : Decidable (c.WaitsFor idx) :=
  inferInstanceAs (Decidable (_ ∧ _ ∧ _ ∧ _))

namespace LockWorld

def init (serverStopFlag : Bool) : LockWorld where
  family := FamilyRun.init
  run := LockRun.init serverStopFlag

def heap (s : LockWorld) : Heap := s.family.heap

def cell (s : LockWorld) (x : Nat) : SessionCell := s.family.heap.cell x

def renew (s : LockWorld) (x : Nat) (family : FamilyRun) : LockWorld where
  family := family
  run := { s.run with locks := s.run.locks.renew x }

/-- session への操作。終わった session には何も渡らない。 -/
def onSession (s : LockWorld) : FamilyOp → Option LockWorld
  | .new x => (familyStep s.family (.new x)).map (s.renew x)
  | .startMco x => (familyStep s.family (.startMco x)).map (s.renew x)
  | .act x a =>
    if s.heap.Live x ∧ a.action ≠ .pickUp then
      (familyStep s.family (.act x a)).map fun family => { s with family }
    else none
  | op => (familyStep s.family op).map fun family => { s with family }

/-- `esq_session_pick_up`。ロックを求める session は、その戻り値で先へ進む。 -/
def pickUp (s : LockWorld) (x w : Nat) (mallocOk : Bool) (os : Int) : Option LockWorld :=
  if s.heap.Live x then
    if (s.cell x).Asks then
      match esqTryFetchHashLock s.run.locks x (s.cell x).wait.hashLockState
          (s.cell x).wait.hashLockIdx w mallocOk with
      | .error _ => none
      | .ok (code, locks) =>
        (familyStep s.family (.act x { action := .pickUp, fetch := code })).map fun family =>
          { family
            run := {
              locks
              history := s.run.history.fetched (s.cell x).wait.hashLockIdx
                ⟨x, (s.cell x).wait.hashLockState, w⟩ code } }
    else (familyStep s.family (.act x { action := .pickUp, os })).map fun family =>
      { s with family }
  else none

/-- `esq_worker_pick_up_from_local_wake_up_list` が `session->event_bits` に書く。 -/
def markWoken (s : LockWorld) (y : Nat) : LockWorld :=
  let bit := if s.run.locks.serverStopFlag then esqEventBitExit else esqEventBitLockObtain
  { s with
    family := s.family.observe (s.family.quiet.modify y fun c =>
      { c with eventBits := orBits c.eventBits bit }) }

def wakeUp (s : LockWorld) (w : Nat) (mallocOk : Bool) (os : Int) : Option LockWorld :=
  match esqWorkerPickUpFromLocalWakeUpList s.run.locks w with
  | .error _ => none
  | .ok (none, _) => some s
  | .ok (some y, locks) =>
    (({ s with run := { s.run with locks } } : LockWorld).markWoken y).pickUp y w mallocOk os

end LockWorld

/-- 一つの操作。プロセスが終わるか、許されない操作なら `none`。 -/
def lockWorldStep (s : LockWorld) : LockWorldOp → Option LockWorld
  | .session op => s.onSession op
  | .pickUp x w mallocOk os => s.pickUp x w mallocOk os
  | .wakeUp w mallocOk os => s.wakeUp w mallocOk os
  | .release x idx => (lockStep s.run (.release x idx)).map fun run => { s with run }

/-! ## 性質 -/

structure NoAbandonedWaiters (s : LockWorld) : Prop where
  /-- 列にある要求の session は生きていて、ロックを持っているか、まだ待っている -/
  queued : ∀ idx, ∀ a ∈ s.run.locks.queue idx, ∃ z, (s.run.locks.ctx a).session = some z
    ∧ s.heap.Live z ∧ (Holds s.run z idx ∨ (s.cell z).WaitsFor idx)
  /-- 解放で新しくロックを持つのは、待っている session だけである -/
  granted : ∀ x idx, ∀ a ∈ s.run.locks.nextHolders x idx, ∃ z,
    (s.run.locks.ctx a).session = some z ∧ s.heap.Live z ∧ (s.cell z).WaitsFor idx

/-! ## 条件 -/

def Action.notifies : Action → Bool
  | .notifyEvent _ => true
  | .notifyTimeout => true
  | .notifyExit => true
  | _ => false

def SessionCell.finishes (c : SessionCell) (a : ChassisAction) : Bool :=
  match c.session.sessionType with
  | .new => a.action = .windUp
  | .noFd => a.action = .windUp
  | .socketCb =>
    c.session.lc = .single .executeCb && (a.action = .windUp || a.action = .hashLockRead)
  | .multiSocketCb =>
    c.session.lc = .multi .executeCb && a.action = .windUp && c.session.fd = 0
      || c.session.lc = .multi .waitForRemoved && a.action = .notifyAioRemoved
      || c.session.lc = .multi .waitForWindUp && a.action = .windUp
  | .mco => c.mco = .executeCb && a.action = .windUp && a.isEnd
  | .waitForHashLock =>
    c.wait.lc = .executeCb && (a.action = .windUp || a.action = .hashLockRead)

structure HashLocks.Contended (s : HashLocks) (x : Nat) (state : HashLockState) (idx : Int)
    (mallocOk : Bool) : Prop where
  running : s.serverStopFlag = false
  alloc : mallocOk = true ∨ ∃ i, (s.ctx (.slot x i)).session = none
  queue : s.queue idx ≠ []
  write : state = .write ∨ ∃ p ∈ s.queue idx, s.isWrite p = true

/-- `z` が `__winded_up` にいるなら、待っていたロックをもう持っている。 -/
def LockWorld.WaiterHolds (s : LockWorld) (z : Nat) : Prop :=
  ∀ idx, (s.cell z).WaitsFor idx → Holds s.run z idx

/-- 終わる session は、要求も wake-up list の ctx も残さず、待っている親に通知しない。 -/
structure LockWorld.EndsCleanly (s : LockWorld) (x : Nat) : Prop where
  queued : ∀ idx, ∀ a ∈ s.run.locks.queue idx, (s.run.locks.ctx a).session ≠ some x
  woken : ∀ i, ¬ OnWakeUpList s.run.locks (.slot x i)
  parent : ∀ p, (s.heap.session x).parentSession = some p → s.WaiterHolds p

/-- `x` が塞がったロックを求めるなら、`x` は待つ。 -/
def LockWorld.PickUpSafe (s : LockWorld) (x : Nat) (mallocOk : Bool) : Prop :=
  (s.cell x).Asks → s.run.locks.Contended x (s.cell x).wait.hashLockState
    (s.cell x).wait.hashLockIdx mallocOk → 0 < (s.cell x).session.timeouts

def LockWorldSafe (s : LockWorld) : LockWorldOp → Prop
  | .session (.act x a) => (a.action.notifies = true → s.WaiterHolds x) ∧
      ((s.cell x).finishes a = true → s.EndsCleanly x)
  | .session _ => True
  | .pickUp x _ mallocOk _ => s.PickUpSafe x mallocOk
  | .wakeUp w mallocOk _ => ∀ a, (s.run.locks.wakeUpList w).head = some a →
      ∀ y, (s.run.locks.ctx a).session = some y → s.PickUpSafe y mallocOk
  | .release x idx => ReleaseSafe s.run.locks x idx

/-! ## 状態機械の一歩 -/

section

variable {c c' : SessionCell} {a : ChassisAction} {es : List Effect} {idx : Int}

theorem SessionCell.WaitsFor.notifies (h : c.WaitsFor idx) (hact : c.act a = .ok (c', es)) :
    a.action.notifies = true := by
  obtain ⟨d, ds, hd⟩ : ∃ d ds, c.ready.step a = .ok (d, ds) := by
    rcases SessionCell.act_cases hact with ⟨hs, -⟩ | ⟨d, ds, -, hd, -⟩
    · exact ⟨_, _, hs⟩
    · exact ⟨d, ds, hd⟩
  obtain ⟨ht, hlc, hw, -⟩ := h
  have hstep : c.ready.step a = (esqPtOfHashLock c.session.ready c.wait a.action a.params a.fetch
      >>= fun q => .ok ({ c.ready with session := q.1.session, wait := q.2 }, q.1.effects)) := by
    unfold SessionCell.step
    rw [show c.ready.session.sessionType = .waitForHashLock from ht]
    exact if_pos hlc
  rw [hstep] at hd
  obtain ⟨q, hq, -⟩ := bind_eq_ok.mp hd
  unfold esqPtOfHashLock at hq
  rw [hw] at hq
  cases ha : a.action with
  | notifyEvent bits => rfl
  | notifyTimeout => rfl
  | notifyExit => rfl
  | _ =>
    rw [ha] at hq
    cases hq

theorem SessionCell.Asks.waitsFor (h : c.Asks) (htimeouts : 0 < c.session.timeouts)
    (hact : c.act { action := .pickUp, fetch := esqErrorBusy } = .ok (c', es)) :
    c'.WaitsFor c.wait.hashLockIdx := by
  obtain ⟨ht, hlc, hw⟩ := h
  have hstep : c.ready.step { action := .pickUp, fetch := esqErrorBusy } = .ok
      ({ c.ready with
          session := (({ session := c.session.ready } : PtRun).joinTimingList.post popNoOp).session
          wait := { c.wait with lc := .windedUp } },
        (({ session := c.session.ready } : PtRun).joinTimingList.post popNoOp).effects) := by
    unfold SessionCell.step
    rw [show c.ready.session.sessionType = .waitForHashLock from ht]
    dsimp only
    rw [if_pos (show c.ready.session.lc = .start from hlc)]
    unfold esqPtOfHashLock
    rw [show c.ready.wait.lc = .waitForCpu from hw]
    unfold HashLockPt.waitForCpu HashLockPt.tryFetchHashLock
    dsimp only
    rw [if_pos rfl, if_pos (show c.ready.session.timeouts > 0 from htimeouts)]
    rfl
  rcases SessionCell.act_cases hact with ⟨hs, -⟩ | ⟨d, ds, ds', hd, hsw, -⟩
  · cases hstep.symm.trans hs
    exact ⟨ht, hlc, rfl, rfl⟩
  · cases hstep.symm.trans hd
    exact absurd (show wantsSwitch popNoOp = true from hsw) (by decide)

end

/-! ## 終わる一歩 -/

theorem Calm.not_ends {op : Nat} (h : Calm op) : ¬ Ends op := by
  unfold Ends
  rcases h with rfl | rfl | rfl | rfl <;> decide

theorem not_ends_switch : ¬ Ends popSwitchSessionType := by
  unfold Ends
  decide

section

variable {s : Session} {p : PtRun} {action : Action} {os fetch : Int} {isEnd : Bool}
  {h h' : HashWait} {lc lc' : McoLabel} {params : HashLockParams}

theorem esqPtOfNoFd_ends (hp : esqPtOfNoFd s action = .ok p) (he : Ends p.session.postOp) :
    action = .windUp := by
  unfold esqPtOfNoFd at hp
  split at hp <;> cases hp
  · rfl
  all_goals exact absurd he not_ends_switch

theorem SingleShot.postOp_installFd (s : Session) :
    (SingleShot.installFd { session := s } os).session.postOp = popNoOp := by
  unfold SingleShot.installFd
  split
  · split <;> rfl
  · rfl

theorem MultiShot.postOp_installFd (s : Session) :
    (MultiShot.installFd { session := s } os).session.postOp = popNoOp := by
  unfold MultiShot.installFd
  split
  · split <;> rfl
  · rfl

theorem SingleShot.postOp_removeFdThenActive (p : PtRun) :
    (SingleShot.removeFdThenActive p os).session.postOp = p.session.postOp := by
  unfold SingleShot.removeFdThenActive
  split
  · split
    · rfl
    · exact PtRun.postOp_changeToNoTimingList _
  · rfl

theorem esqPtOfSingleShotSocket_ends (hop : s.postOp = popNoOp)
    (hp : esqPtOfSingleShotSocket s action os = .ok p) (he : Ends p.session.postOp) :
    s.lc = .single .executeCb ∧ (action = .windUp ∨ action = .hashLockRead) := by
  unfold esqPtOfSingleShotSocket at hp
  split at hp
  · cases hp
    exact absurd he calm_noOp.not_ends
  · simp only [SingleShot.initial] at hp
    split at hp
    · cases hp
      exact absurd he calm_joinLocal.not_ends
    · cases hp
      exact absurd he calm_joinGlobal.not_ends
    · split at hp <;> cases hp
      exact absurd he calm_noOp.not_ends
    · cases hp
  · simp only [SingleShot.waitForCpu] at hp
    split at hp <;> cases hp
    exact absurd (SingleShot.postOp_installFd s ▸ he) calm_noOp.not_ends
  · simp only [SingleShot.windedUp] at hp
    split at hp <;> cases hp
    · exact absurd he calm_noOp.not_ends
    all_goals
      rw [SingleShot.postOp_removeFdThenActive] at he
      exact absurd he calm_noOp.not_ends
  · simp only [SingleShot.waitForRemovedThenActive] at hp
    split at hp <;> cases hp <;> exact absurd he calm_noOp.not_ends
  · simp only [SingleShot.active] at hp
    split at hp <;> cases hp
    · exact absurd he calm_noOp.not_ends
    · exact absurd he calm_noOp.not_ends
    · exact absurd he calm_returnValue.not_ends
  · next hlc =>
    refine ⟨hlc, ?_⟩
    simp only [SingleShot.executeCb] at hp
    split at hp <;> cases hp
    · exact Or.inl rfl
    · exact absurd he not_ends_switch
    · exact absurd he calm_noOp.not_ends
    · exact absurd he calm_noOp.not_ends
    · exact absurd he calm_noOp.not_ends
    · exact absurd he calm_noOp.not_ends
    · exact absurd he not_ends_switch
    · exact Or.inr rfl
  · simp only [SingleShot.waitForReinstall] at hp
    split at hp <;> cases hp
    · exact absurd (SingleShot.postOp_installFd s ▸ he) calm_noOp.not_ends
    · exact absurd he calm_noOp.not_ends
    · exact absurd he calm_noOp.not_ends
  · cases hp
  · cases hp
    exact absurd (hop ▸ he) calm_noOp.not_ends

theorem esqPtOfMultiShotSocket_ends (hop : s.postOp = popNoOp)
    (hp : esqPtOfMultiShotSocket s action os = .ok p) (he : Ends p.session.postOp) :
    (s.lc = .multi .executeCb ∧ action = .windUp ∧ s.fd = 0) ∨
      (s.lc = .multi .waitForRemoved ∧ action = .notifyAioRemoved) ∨
      s.lc = .multi .waitForWindUp ∧ action = .windUp := by
  have hquiet : ∀ {op : Nat}, op = s.postOp → ¬ Ends op := fun heq => by
    rw [heq, hop]
    exact calm_noOp.not_ends
  unfold esqPtOfMultiShotSocket at hp
  split at hp
  · cases hp
    exact absurd he calm_noOp.not_ends
  · simp only [MultiShot.initial] at hp
    split at hp <;> cases hp
    · exact absurd he calm_joinLocal.not_ends
    · exact absurd he calm_joinGlobal.not_ends
  · simp only [MultiShot.waitForCpu] at hp
    split at hp <;> cases hp
    exact absurd (MultiShot.postOp_installFd s ▸ he) calm_noOp.not_ends
  · simp only [MultiShot.windedUp] at hp
    split at hp <;> cases hp
    · exact absurd he calm_noOp.not_ends
    · exact absurd he (hquiet rfl)
  · simp only [MultiShot.active] at hp
    split at hp <;> cases hp
    · exact absurd he calm_noOp.not_ends
    · exact absurd he calm_noOp.not_ends
    · exact absurd he calm_returnValue.not_ends
  · next hlc =>
    simp only [MultiShot.executeCb] at hp
    split at hp
    · split at hp
      · split at hp <;> cases hp
        · exact absurd he (hquiet rfl)
        · exact absurd he calm_noOp.not_ends
      · next hfd =>
        exact Or.inl ⟨hlc, rfl, not_not.mp hfd⟩
    · split at hp
      · split at hp <;> cases hp
        · exact absurd he (hquiet rfl)
        · exact absurd he (hquiet rfl)
      · cases hp
        exact absurd he calm_noOp.not_ends
    all_goals
      cases hp <;> exact absurd he calm_noOp.not_ends
  · simp only [MultiShot.waitForRemovedAndWindUp] at hp
    split at hp <;> cases hp <;> exact absurd he calm_noOp.not_ends
  · next hlc =>
    simp only [MultiShot.waitForRemoved] at hp
    split at hp <;> cases hp
    · exact Or.inr (Or.inl ⟨hlc, rfl⟩)
    · exact absurd he calm_noOp.not_ends
  · next hlc =>
    simp only [MultiShot.waitForWindUp] at hp
    split at hp <;> cases hp
    · exact Or.inr (Or.inr ⟨hlc, rfl⟩)
    · exact absurd he calm_noOp.not_ends
  · cases hp
  · cases hp
    exact absurd he (hquiet rfl)

theorem esqPtOfHashLock_ends (hp : esqPtOfHashLock s h action params fetch = .ok (p, h'))
    (he : Ends p.session.postOp) :
    h.lc = .executeCb ∧ (action = .windUp ∨ action = .hashLockRead) := by
  unfold esqPtOfHashLock at hp
  dsimp only at hp
  split at hp
  · cases hp
    exact absurd he calm_noOp.not_ends
  · obtain ⟨q, hq, hp⟩ := map_eq_ok.mp hp
    simp only [HashLockPt.initial] at hq
    split at hq
    · cases hq
      cases hp
      exact absurd he calm_joinLocal.not_ends
    · cases hq
      cases hp
      exact absurd he calm_joinGlobal.not_ends
    · split at hq <;> cases hq
      cases hp
      exact absurd he calm_noOp.not_ends
    · cases hq
  · obtain ⟨q, hq, hp⟩ := map_eq_ok.mp hp
    simp only [HashLockPt.waitForCpu] at hq
    split at hq <;> cases hq
    unfold HashLockPt.tryFetchHashLock at hp
    split at hp
    · split at hp <;> cases hp <;> exact absurd he calm_noOp.not_ends
    · split at hp <;> cases hp <;> exact absurd he calm_noOp.not_ends
  · obtain ⟨q, hq, hp⟩ := map_eq_ok.mp hp
    simp only [HashLockPt.windedUp] at hq
    split at hq <;> cases hq <;> cases hp <;> exact absurd he calm_noOp.not_ends
  · obtain ⟨q, hq, hp⟩ := map_eq_ok.mp hp
    simp only [HashLockPt.active] at hq
    split at hq <;> cases hq <;> cases hp
    · exact absurd he calm_noOp.not_ends
    · exact absurd he calm_noOp.not_ends
    · exact absurd he calm_returnValue.not_ends
  · next hlc =>
    refine ⟨hlc, ?_⟩
    obtain ⟨q, hq, hp⟩ := map_eq_ok.mp hp
    simp only [HashLockPt.executeCb] at hq
    split at hq <;> cases hq <;> cases hp
    · exact Or.inl rfl
    · exact absurd he not_ends_switch
    · exact absurd he calm_noOp.not_ends
    · exact absurd he not_ends_switch
    · exact absurd he calm_noOp.not_ends
    · exact absurd he calm_noOp.not_ends
    · exact absurd he not_ends_switch
    · exact Or.inr rfl
  · cases hp

theorem esqPtOfMco_ends (hop : s.postOp = popNoOp)
    (hp : esqPtOfMco s lc action os isEnd = .ok (p, lc')) (he : Ends p.session.postOp) :
    lc = .executeCb ∧ action = .windUp ∧ isEnd = true := by
  have hquiet : ∀ {op : Nat}, op = s.postOp → ¬ Ends op := fun heq => by
    rw [heq, hop]
    exact calm_noOp.not_ends
  unfold esqPtOfMco at hp
  split at hp
  · cases hp
    exact absurd he calm_returnValue.not_ends
  · simp only [McoPt.active] at hp
    split at hp <;> cases hp
    · exact absurd he calm_noOp.not_ends
    · exact absurd he calm_noOp.not_ends
    · exact absurd he calm_returnValue.not_ends
  · simp only [McoPt.windedUp] at hp
    split at hp <;> cases hp <;> exact absurd he calm_noOp.not_ends
  · simp only [McoPt.executeCb] at hp
    split at hp
    · split at hp
      · next hend => exact ⟨rfl, rfl, hend⟩
      · split at hp <;> cases hp
        exact absurd he (hquiet rfl)
    · split at hp
      · split at hp <;> cases hp <;> exact absurd he calm_returnValue.not_ends
      · cases hp
        exact absurd he calm_returnValue.not_ends
    all_goals
      cases hp <;> exact absurd he calm_noOp.not_ends
  · simp only [McoPt.executeCbInstalledSocketFd] at hp
    split at hp
    · split at hp
      · cases hp
      · split at hp <;> cases hp <;> exact absurd he calm_noOp.not_ends
    all_goals
      cases hp <;> exact absurd he calm_noOp.not_ends

end

section

variable {c c' : SessionCell} {a : ChassisAction} {es : List Effect}

theorem SessionCell.step_ends (hop : c.session.postOp = popNoOp) (h : c.step a = .ok (c', es))
    (he : Ends c'.session.postOp) : c.finishes a = true := by
  unfold SessionCell.finishes
  cases SessionCell.step_cases h with
  | hashLock ht _ hp =>
    obtain ⟨hlc, hact⟩ := esqPtOfHashLock_ends hp he
    simpa [ht, hlc] using hact
  | stuck => exact absurd (hop ▸ he) calm_noOp.not_ends
  | mco ht hp =>
    obtain ⟨hlc, hact, hend⟩ := esqPtOfMco_ends hop hp he
    simp [ht, hlc, hact, hend]
  | single ht hp =>
    obtain ⟨hlc, hact⟩ := esqPtOfSingleShotSocket_ends hop hp he
    simpa [ht, hlc] using hact
  | multi ht hp =>
    rcases esqPtOfMultiShotSocket_ends hop hp he with ⟨hlc, hact, hfd⟩ | ⟨hlc, hact⟩ | ⟨hlc, hact⟩
    · simp [ht, hlc, hact, hfd]
    · simp [ht, hlc, hact]
    · simp [ht, hlc, hact]
  | noFd ht hp => rcases ht with ht | ht <;> simp [ht, esqPtOfNoFd_ends hp he]

/-- **後始末で session が終わるのは、終わる action のときだけである。** -/
theorem SessionCell.finishes_of_ends (h : c.act a = .ok (c', es)) (he : Ends c'.session.postOp) :
    c.finishes a = true := by
  rcases SessionCell.act_cases h with ⟨hs, -⟩ | ⟨d, ds, ds', hd, hsw, hs, -⟩
  · exact SessionCell.step_ends (c := c.ready) rfl hs he
  · rcases SessionCell.step_stepped (c := c.ready) rfl hd with ⟨-, hop⟩ | hop | ⟨-, htype⟩
    · rw [wantsSwitch_of_calm hop] at hsw
      cases hsw
    · rw [wantsSwitch_of_ends hop] at hsw
      cases hsw
    · rw [(SessionCell.restart_step htype hs).2.1] at he
      exact absurd he calm_noOp.not_ends

end

/-! ## session への操作 -/

structure Heap.Spares (h h' : Heap) (z : Nat) : Prop where
  live : h'.Live z
  control : SameControl (h.cell z) (h'.cell z)

theorem SameControl.waitsFor {c d : SessionCell} {idx : Int} (hs : SameControl c d)
    (h : c.WaitsFor idx) : d.WaitsFor idx := by
  unfold SessionCell.WaitsFor at h ⊢
  rw [hs.sessionType, hs.lc, hs.wait]
  exact h

section

variable {s t : FamilyRun} {x z : Nat} {a : ChassisAction} {op : FamilyOp}

theorem familyStep_new (hs : familyStep s op = some t) (hop : op = .new x ∨ op = .startMco x) :
    ¬ s.heap.Live x := by
  rintro ⟨hx, -⟩
  rcases hop with rfl | rfl
  all_goals
    unfold familyStep at hs
    dsimp only at hs
    rw [if_pos hx] at hs
    cases hs

theorem familyStep_spares (hi : RunInv s) (hs : familyStep s op = some t)
    (hop : ∀ x a, op ≠ .act x a) (hz : s.heap.Live z) : s.heap.Spares t.heap z := by
  unfold familyStep at hs
  cases op with
  | new x =>
    dsimp only at hs
    split at hs
    · cases hs
    next hx =>
      cases hs
      have hzx : z ≠ x := by
        rintro rfl
        exact hx hz.1
      refine ⟨(Heap.live_esqSessionNew z).mpr (Or.inr hz), ?_⟩
      have hcell : (s.quiet.esqSessionNew x).cell z = s.heap.cell z := Function.update_of_ne hzx ..
      show SameControl _ ((s.quiet.esqSessionNew x).cell z)
      rw [hcell]
      exact .refl _
  | startMco x =>
    dsimp only at hs
    split at hs
    · cases hs
    next hx =>
      split at hs
      · cases hs
      next h hr =>
        cases hs
        have hzx : z ≠ x := by
          rintro rfl
          exact hx hz.1
        obtain ⟨hsame, -, -, hcell⟩ := Heap.startMco_spec hr
        refine ⟨hsame.live_iff.mpr ((Heap.live_esqSessionNew z).mpr (Or.inr hz)), ?_⟩
        show SameControl _ (h.cell z)
        rw [hcell z hzx]
        exact .refl _
  | act x a => exact absurd rfl (hop x a)
  | bundle p c cb =>
    dsimp only at hs
    split at hs
    next hl =>
      split at hs
      · cases hs
      next r h hr =>
        cases hs
        have hb := hi.kindred_quiet.bundled hi.tidy hl.1 hl.2 hr
        exact ⟨hb.live_iff.mpr hz, hb.control z⟩
    · cases hs
  | collect p =>
    dsimp only at hs
    split at hs
    · split at hs
      · cases hs
      next h hr =>
        cases hs
        have hc := hi.kindred_quiet.collected hr
        exact ⟨(hc.live_iff hi.kindred_quiet).mpr hz, hc.control z⟩
    · cases hs

inductive ActedOn (s t : FamilyRun) (x : Nat) (a : ChassisAction) (c : SessionCell) : Prop where
  /-- `x` は続き、他の session は変わらない -/
  | stays (live : t.heap.Live x) (cell : t.heap.cell x = c)
    (other : ∀ z, s.heap.Live z → z ≠ x → s.heap.Spares t.heap z)
  /-- `x` は終わり、居場所が変わりうるのは `x` の親だけである -/
  | finishes (finishes : (s.heap.cell x).finishes a = true)
    (live : ∀ z, s.heap.Live z → z ≠ x → t.heap.Live z)
    (other : ∀ z, s.heap.Live z → z ≠ x → (s.heap.session x).parentSession ≠ some z →
      s.heap.Spares t.heap z)

theorem familyStep_act (hi : RunInv s) (hl : s.heap.Live x)
    (hs : familyStep s (.act x a) = some t) :
    ∃ c es, (s.heap.cell x).act a = .ok (c, es) ∧ ActedOn s t x a c := by
  unfold familyStep at hs
  dsimp only at hs
  split at hs
  case isFalse => cases hs
  next hand =>
  rw [Bool.and_eq_true, Bool.not_eq_true'] at hand
  have hkeep := Action.keepsKin_of_not_bundles hand.2
  split at hs
  · cases hs
  next r h hr =>
  cases hs
  have hsq : SameFamily s.heap s.quiet := ⟨fun _ => rfl, rfl, rfl⟩
  have hcell : ∀ c es z, z ≠ x → (s.quiet.commit x c es).cell z = s.heap.cell z :=
    fun c es z hzx => Heap.commit_cell_of_ne hzx
  have hm : (s.quiet.session x).magic = true := hi.kindred.magic x hl
  cases Heap.tookAction hm hr with
  | calm c es qs hact ht hq heq =>
    have hsame : SameFamily s.heap h := by
      rw [heq]
      exact (hsq.trans (Heap.sameFamily_commit (SessionCell.act_kin hact hkeep))).trans
        (Heap.sameFamily_logged qs)
    refine ⟨c, es, hact, .stays (hsame.live_iff.mpr hl) ?_ fun z hz hzx =>
      ⟨hsame.live_iff.mpr hz, ?_⟩⟩
    · show h.cell x = c
      rw [heq]
      show (s.quiet.commit x c es).cell x = c
      exact Heap.commit_cell_self
    · show SameControl _ (h.cell z)
      rw [heq, show ((s.quiet.commit x c es).logged qs).cell z = s.heap.cell z from
        hcell c es z hzx]
      exact .refl _
  | ends c es hact hop hfree =>
    have hsame : SameFamily s.heap (s.quiet.commit x c es) :=
      hsq.trans (Heap.sameFamily_commit (SessionCell.act_kin hact hkeep))
    have hk := hi.kindred.same hsame
    have hf := hk.freed (hsame.live_iff.mpr hl) hfree
    have hlive : ∀ z, s.heap.Live z → z ≠ x → h.Live z := fun z hz hzx =>
      (hf.live_iff hk).mpr ⟨hsame.live_iff.mpr hz, hzx⟩
    refine ⟨c, es, hact, .finishes (SessionCell.finishes_of_ends hact hop) hlive
      fun z hz hzx hp => ⟨hlive z hz hzx, ?_⟩⟩
    rw [← hsame.parentSession x] at hp
    have hcontrol := hf.control z hzx hp
    rw [hcell c es z hzx] at hcontrol
    exact hcontrol

end

/-! ## 不変量 -/

/-- 列と wake-up list の ctx は、生きている session のものである。 -/
structure WaiterInv (s : LockWorld) (qs : Int → List CtxAddr) (ws : Nat → List CtxAddr) :
    Prop where
  family : RunInv s.family
  locks : LockInv s.run qs ws
  /-- 埋め込みの ctx は、その session の要求だけを表す -/
  owned : ∀ z i y, (s.run.locks.ctx (.slot z i)).session = some y → y = z
  wake : ∀ w z i, .slot z i ∈ ws w → s.heap.Live z
  waits : ∀ idx, ∀ r ∈ s.run.history.outstanding idx, s.heap.Live r.session
    ∧ (Holds s.run r.session idx ∨ (s.cell r.session).WaitsFor idx)

theorem waiterInv_init (b : Bool) :
    WaiterInv (LockWorld.init b) (fun _ => []) (fun _ => []) where
  family := runInv_init
  locks := lockInv_init b
  owned _ _ _ h := by cases h
  wake _ _ _ h := by cases h
  waits _ _ h := by cases h

section

variable {s : LockWorld} {qs : Int → List CtxAddr} {ws : Nat → List CtxAddr} {a : CtxAddr}
  {idx : Int} {x z : Nat} {family : FamilyRun}

theorem WaiterInv.of_mem (h : WaiterInv s qs ws) (ha : a ∈ qs idx) :
    ∃ z, (s.run.locks.ctx a).session = some z ∧ s.heap.Live z
      ∧ (Holds s.run z idx ∨ (s.cell z).WaitsFor idx) := by
  obtain ⟨z, hz⟩ := Option.ne_none_iff_exists'.mp (h.locks.live idx a ha)
  have hr : s.run.locks.request a ∈ s.run.history.outstanding idx := by
    rw [h.locks.requests]
    exact List.mem_map_of_mem ha
  have hwaits := h.waits idx _ hr
  rw [(h.locks.request_session ha).mpr hz] at hwaits
  exact ⟨z, hz, hwaits⟩

theorem WaiterInv.ctx_of_request (h : WaiterInv s qs ws) {r : LockRequest}
    (hr : r ∈ s.run.history.outstanding idx) :
    ∃ a ∈ qs idx, (s.run.locks.ctx a).session = some r.session := by
  rw [h.locks.requests] at hr
  obtain ⟨a, ha, rfl⟩ := List.mem_map.mp hr
  exact ⟨a, ha, (h.locks.request_session ha).mp rfl⟩

theorem WaiterInv.live_of_slot (h : WaiterInv s qs ws) {i : Fin 3} (ha : .slot z i ∈ qs idx) :
    s.heap.Live z := by
  obtain ⟨y, hy, hl, -⟩ := h.of_mem ha
  rw [← h.owned z i y hy]
  exact hl

theorem WaiterInv.noAbandonedWaiters (h : WaiterInv s qs ws) : NoAbandonedWaiters s where
  queued idx a ha := by
    rw [h.locks.queue_eq] at ha
    exact h.of_mem ha
  granted x idx a ha := by
    have hmem := h.locks.mem_of_nextHolders ha
    obtain ⟨z, hz, hl, hold | hwait⟩ := h.of_mem hmem
    · -- 持っている session の要求は、もう許されている
      obtain ⟨r, hr, hrz⟩ := hold
      rw [h.locks.held_eq] at hr
      obtain ⟨p, hp, rfl⟩ := List.mem_map.mp hr
      have hpq := granted_subset hp
      have hpz := (h.locks.request_session hpq).mp hrz
      obtain rfl := h.locks.eq_of_session hpq hmem (hpz.trans hz.symm)
      have hnot := (List.mem_filter.mp ha).2
      rw [h.locks.queue_eq] at hnot
      exact absurd hp (of_decide_eq_true hnot)
    · exact ⟨z, hz, hl, hwait⟩

/-! ### session の側が変わる -/

theorem WaiterInv.setFamily (h : WaiterInv s qs ws) (hi : RunInv family)
    (hwake : ∀ w z i, .slot z i ∈ ws w → family.heap.Live z)
    (hwaits : ∀ idx, ∀ r ∈ s.run.history.outstanding idx, family.heap.Live r.session
      ∧ (s.WaiterHolds r.session ∨ SameControl (s.cell r.session) (family.heap.cell r.session))) :
    WaiterInv { s with family } qs ws where
  family := hi
  locks := h.locks
  owned := h.owned
  wake := hwake
  waits idx r hr := by
    obtain ⟨hl, hcontrol⟩ := hwaits idx r hr
    refine ⟨hl, ?_⟩
    rcases (h.waits idx r hr).2 with hold | hwait
    · exact Or.inl hold
    · exact hcontrol.imp (fun hx => hx idx hwait) fun hs => hs.waitsFor hwait

theorem WaiterInv.spares (h : WaiterInv s qs ws) (hi : RunInv family)
    (hs : ∀ z, s.heap.Live z → s.heap.Spares family.heap z) : WaiterInv { s with family } qs ws :=
  h.setFamily hi (fun w z i ha => (hs z (h.wake w z i ha)).live) fun idx r hr =>
    have hz := hs r.session (h.waits idx r hr).1
    ⟨hz.live, Or.inr hz.control⟩

/-- **action を渡しても、条件の下で不変量は保たれる。** -/
theorem WaiterInv.act {a : ChassisAction} (h : WaiterInv s qs ws) (hl : s.heap.Live x)
    (hnotify : a.action.notifies = true → s.WaiterHolds x)
    (hends : (s.cell x).finishes a = true → s.EndsCleanly x)
    (hs : familyStep s.family (.act x a) = some family) : WaiterInv { s with family } qs ws := by
  obtain ⟨c, es, hact, hacted⟩ := familyStep_act h.family hl hs
  have hx : s.WaiterHolds x := fun idx hw => hnotify (hw.notifies hact) idx hw
  have hi := runInv_step _ h.family hs
  cases hacted with
  | stays hlive hcell hother =>
    refine h.setFamily hi (fun w z i ha => ?_) fun idx r hr => ?_
    · by_cases hzx : z = x
      · rw [hzx]
        exact hlive
      · exact (hother z (h.wake w z i ha) hzx).live
    · by_cases hrx : r.session = x
      · rw [hrx]
        exact ⟨hlive, Or.inl hx⟩
      · have hz := hother r.session (h.waits idx r hr).1 hrx
        exact ⟨hz.live, Or.inr hz.control⟩
  | finishes hfin hlive hother =>
    have hclean := hends hfin
    refine h.setFamily hi (fun w z i ha => ?_) fun idx r hr => ?_
    · refine hlive z (h.wake w z i ha) ?_
      rintro rfl
      exact hclean.woken i ⟨w, ws w, (h.locks.wake.queue w).1, ha⟩
    · have hrx : r.session ≠ x := by
        obtain ⟨a, ha, hz⟩ := h.ctx_of_request hr
        rintro rfl
        exact hclean.queued idx a (h.locks.queue_eq idx ▸ ha) hz
      have hrl := (h.waits idx r hr).1
      refine ⟨hlive r.session hrl hrx, ?_⟩
      by_cases hp : (s.heap.session x).parentSession = some r.session
      · exact Or.inl (hclean.parent r.session hp)
      · exact Or.inr (hother r.session hrl hrx hp).control

theorem WaiterInv.renew (h : WaiterInv s qs ws) (hx : ¬ s.heap.Live x) :
    WaiterInv { s with run := { s.run with locks := s.run.locks.renew x } } qs ws := by
  have hq : ∀ idx, ∀ a ∈ qs idx, ¬ a.isSlotOf x = true := by
    intro idx a ha hslot
    cases a with
    | heap n => cases hslot
    | slot z i =>
      obtain rfl : z = x := of_decide_eq_true hslot
      exact hx (h.live_of_slot ha)
  have hw : ∀ w, ∀ a ∈ ws w, ¬ a.isSlotOf x = true := by
    intro w a ha hslot
    cases a with
    | heap n => cases hslot
    | slot z i =>
      obtain rfl : z = x := of_decide_eq_true hslot
      exact hx (h.wake w z i ha)
  have hctx : ∀ idx, ∀ a ∈ qs idx, (s.run.locks.renew x).ctx a = s.run.locks.ctx a :=
    fun idx a ha => if_neg (hq idx a ha)
  refine ⟨h.family, ⟨h.locks.congr ?_ ?_ hctx le_rfl le_rfl h.locks.heapFree, ?_, h.locks.held⟩,
    ?_, h.wake, h.waits⟩
  · exact h.locks.queue.congr fun idx a ha => if_neg (hq idx a ha)
  · exact h.locks.wake.congr fun w a ha => if_neg (hw w a ha)
  · intro idx
    rw [h.locks.requests]
    refine List.map_congr_left fun a ha => ?_
    unfold HashLocks.request
    rw [hctx idx a ha]
  · intro z i y hy
    have hy : (if CtxAddr.isSlotOf x (.slot z i) then {} else s.run.locks.ctx (.slot z i)).session
      = some y := hy
    split at hy
    · cases hy
    · exact h.owned z i y hy

theorem WaiterInv.renewed {op : FamilyOp} (h : WaiterInv s qs ws)
    (hop : op = .new x ∨ op = .startMco x) (hs : familyStep s.family op = some family) :
    WaiterInv (s.renew x family) qs ws := by
  have hact : ∀ y a, op ≠ .act y a := by
    rcases hop with rfl | rfl
    all_goals
      intro y a he
      cases he
  have hrenew := h.renew (familyStep_new hs hop)
  exact hrenew.spares (runInv_step _ h.family hs) fun z hz =>
    familyStep_spares h.family hs hact hz

end

/-! ### ロックの側が変わる -/

section

variable {h : LockHistory} {r r' : LockRequest} {code : Int} {idx j : Int} {x : Nat}
  {woken : List LockRequest}

theorem LockHistory.mem_held_fetched (hr : r' ∈ h.held j) : r' ∈ (h.fetched idx r code).held j := by
  unfold LockHistory.fetched
  split
  · by_cases hj : j = idx
    · subst hj
      show r' ∈ Function.update h.held j _ j
      rw [Function.update_self]
      exact List.mem_append_left _ hr
    · show r' ∈ Function.update h.held idx _ j
      rwa [Function.update_of_ne hj]
  · split <;> exact hr

theorem LockHistory.mem_outstanding_fetched (hr : r' ∈ (h.fetched idx r code).outstanding j) :
    r' ∈ h.outstanding j ∨
      (j = idx ∧ r' = r ∧ (r ∈ (h.fetched idx r code).held idx ∨ code = esqErrorBusy)) := by
  have hupdate : r' ∈ Function.update h.outstanding idx (h.outstanding idx ++ [r]) j →
      r' ∈ h.outstanding j ∨ (j = idx ∧ r' = r) := by
    intro hr
    by_cases hj : j = idx
    · subst hj
      rw [Function.update_self] at hr
      rcases List.mem_append.mp hr with hr | hr
      · exact Or.inl hr
      · exact Or.inr ⟨rfl, List.mem_singleton.mp hr⟩
    · rw [Function.update_of_ne hj] at hr
      exact Or.inl hr
  unfold LockHistory.fetched at hr ⊢
  split at hr
  next hok =>
    rw [if_pos hok]
    refine (hupdate hr).imp_right fun hnew => ⟨hnew.1, hnew.2, Or.inl ?_⟩
    show r ∈ Function.update h.held idx _ idx
    rw [Function.update_self]
    exact List.mem_append_right _ (List.mem_singleton.mpr rfl)
  next hok =>
    split at hr
    next hbusy => exact (hupdate hr).imp_right fun hnew => ⟨hnew.1, hnew.2, Or.inr hbusy⟩
    next => exact Or.inl hr

theorem LockHistory.mem_outstanding_released
    (hr : r ∈ (h.released idx x woken).outstanding j) :
    r ∈ h.outstanding j ∧ (j = idx → r.session ≠ x) := by
  have hr : r ∈ Function.update h.outstanding idx _ j := hr
  by_cases hj : j = idx
  · subst hj
    rw [Function.update_self] at hr
    obtain ⟨hmem, hx⟩ := List.mem_filter.mp hr
    exact ⟨hmem, fun _ => of_decide_eq_true hx⟩
  · rw [Function.update_of_ne hj] at hr
    exact ⟨hr, fun he => absurd he hj⟩

theorem LockHistory.mem_held_released (hr : r ∈ h.held j) (hx : j = idx → r.session ≠ x) :
    r ∈ (h.released idx x woken).held j := by
  show r ∈ Function.update h.held idx _ j
  by_cases hj : j = idx
  · subst hj
    rw [Function.update_self]
    exact List.mem_append_left _ (List.mem_filter.mpr ⟨hr, decide_eq_true (hx rfl)⟩)
  · rwa [Function.update_of_ne hj]

end

section

variable {s : LockWorld} {qs : Int → List CtxAddr} {ws : Nat → List CtxAddr} {idx : Int}
  {x y w : Nat} {b : Bool} {state : HashLockState} {code : Int} {locks : HashLocks}

theorem Joined.contended {s t s2 : HashLocks} {a : CtxAddr} {c : HashLockCtx}
    (h : QueueInv s qs ws) (hj : Joined s t qs idx x b c code a s2) (hc : c.state = state)
    (hcode : code = esqErrorBusy) : s.Contended x state idx b := by
  have hcond := hj.code_eq
  rw [hcode] at hcond
  split at hcond
  · cases hcond
  next hnot =>
  obtain ⟨hne, hwrite⟩ := not_or.mp hnot
  refine ⟨hj.running, hj.alloc, ?_, ?_⟩
  · rw [h.queue_eq]
    exact hne
  · by_cases hstate : state = .write
    · exact Or.inl hstate
    · refine Or.inr ?_
      have ha : s2.isWrite a = false := by
        unfold HashLocks.isWrite
        rw [hj.prepared.ctx, Function.update_self, hc]
        exact decide_eq_false hstate
      by_contra hno
      refine hwrite ⟨ha, fun y hy => ?_⟩
      have hya : y ≠ a := by
        rintro rfl
        exact h.notMem_of_free hj.prepared.free idx hy
      have hsame : s2.isWrite y = s.isWrite y := by
        unfold HashLocks.isWrite
        rw [hj.prepared.ctx_of_ne hya]
      rw [hsame]
      refine Bool.eq_false_iff.mpr fun hyw => hno ⟨y, ?_, hyw⟩
      rw [h.queue_eq]
      exact hy

theorem WaiterInv.contended (h : WaiterInv s qs ws)
    (hf : esqTryFetchHashLock s.run.locks x state idx w b = .ok (esqErrorBusy, locks)) :
    s.run.locks.Contended x state idx b := by
  rcases h.locks.toQueueInv.fetch hf with ⟨-, hc | hc⟩ | ⟨a, s2, hj⟩
  · cases hc
  · cases hc
  · exact hj.contended h.locks.toQueueInv rfl rfl

/-- **列に足した要求の session が待つなら、要求は不変量を保つ。** -/
theorem WaiterInv.fetched (h : WaiterInv s qs ws) (hl : s.heap.Live x)
    (hf : esqTryFetchHashLock s.run.locks x state idx w b = .ok (code, locks))
    (hbusy : code = esqErrorBusy → (s.cell x).WaitsFor idx) :
    ∃ qs', WaiterInv { s with
      run := { locks, history := s.run.history.fetched idx ⟨x, state, w⟩ code } } qs' ws := by
  have hstep : lockStep s.run (.fetch x state idx w b)
      = some { locks, history := s.run.history.fetched idx ⟨x, state, w⟩ code } := by
    rw [lockStep, hf]
  obtain ⟨qs', hlocks⟩ := h.locks.fetch hstep
  refine ⟨qs', h.family, hlocks, fun z i y hy => ?_, h.wake, fun j r hr => ?_⟩
  · have hy : (locks.ctx (.slot z i)).session = some y := hy
    rcases h.locks.toQueueInv.fetch hf with ⟨rfl, -⟩ | ⟨a, s2, hj⟩
    · exact h.owned z i y hy
    · rw [hj.enqueued.ctx] at hy
      by_cases ha : CtxAddr.slot z i = a
      · rw [ha, hj.prepared.ctx, Function.update_self] at hy
        rw [hj.slot z i ha.symm]
        exact (Option.some.inj hy).symm
      · rw [hj.prepared.ctx_of_ne ha] at hy
        exact h.owned z i y hy
  · rcases LockHistory.mem_outstanding_fetched hr with hr | ⟨rfl, rfl, hnew⟩
    · obtain ⟨hrl, hold | hwait⟩ := h.waits j r hr
      · obtain ⟨r', hr', heq⟩ := hold
        exact ⟨hrl, Or.inl ⟨r', LockHistory.mem_held_fetched hr', heq⟩⟩
      · exact ⟨hrl, Or.inr hwait⟩
    · exact ⟨hl, hnew.imp (fun hheld => ⟨_, hheld, rfl⟩) hbusy⟩

theorem WaiterInv.release {run : LockRun} (h : WaiterInv s qs ws)
    (hsafe : ReleaseSafe s.run.locks x idx) (hs : lockStep s.run (.release x idx) = some run) :
    ∃ qs' ws', WaiterInv { s with run } qs' ws' := by
  obtain ⟨qs', ws', hlocks, hctx, hwake⟩ := h.locks.released hsafe hs
  obtain ⟨woken, hhistory⟩ : ∃ woken, run.history = s.run.history.released idx x woken := by
    rw [lockStep] at hs
    split at hs
    · cases hs
    · cases hs
      exact ⟨_, rfl⟩
  refine ⟨qs', ws', h.family, hlocks, fun z i y hy => h.owned z i y (hctx _ y hy),
    fun w z i ha => ?_, fun j r hr => ?_⟩
  · rcases hwake w _ ha with ha | ha
    · exact h.wake w z i ha
    · exact h.live_of_slot ha
  · have hr : r ∈ run.history.outstanding j := hr
    rw [hhistory] at hr
    obtain ⟨hr, hx⟩ := LockHistory.mem_outstanding_released hr
    obtain ⟨hrl, hold | hwait⟩ := h.waits j r hr
    · obtain ⟨r', hr', heq⟩ := hold
      refine ⟨hrl, Or.inl ⟨r', ?_, heq⟩⟩
      show r' ∈ run.history.held j
      rw [hhistory]
      exact LockHistory.mem_held_released hr' fun hj => heq ▸ hx hj
    · exact ⟨hrl, Or.inr hwait⟩

/-! ### 取り出す -/

theorem SessionCell.finishes_of_pickUp (c : SessionCell) {a : ChassisAction}
    (ha : a.action = .pickUp) : c.finishes a = false := by
  unfold SessionCell.finishes
  rw [ha]
  cases c.session.sessionType <;> simp

/-- **ロックを求める session が、塞がれていれば待つなら、不変量は保たれる。** -/
theorem WaiterInv.pickUp {t : LockWorld} {os : Int} (h : WaiterInv s qs ws)
    (hsafe : s.PickUpSafe x b) (hs : s.pickUp x w b os = some t) : ∃ qs', WaiterInv t qs' ws := by
  unfold LockWorld.pickUp at hs
  split at hs
  case isFalse => cases hs
  next hl =>
  have hends : ∀ a : ChassisAction, a.action = .pickUp → (s.cell x).finishes a = true →
      s.EndsCleanly x := fun a ha hfin => by
    rw [SessionCell.finishes_of_pickUp _ ha] at hfin
    cases hfin
  split at hs
  next hasks =>
    split at hs
    · cases hs
    next code locks hf =>
    obtain ⟨family, hfam, rfl⟩ := Option.map_eq_some_iff.mp hs
    have hacted := h.act hl (fun hn => by cases hn) (hends _ rfl) hfam
    obtain ⟨c, es, hact, ⟨hlive, hcell, -⟩ | ⟨hfin, -, -⟩⟩ := familyStep_act h.family hl hfam
    · refine hacted.fetched hlive hf fun hbusy => ?_
      subst hbusy
      show (family.heap.cell x).WaitsFor _
      rw [hcell]
      exact hasks.waitsFor (hsafe hasks (h.contended hf)) hact
    · rw [SessionCell.finishes_of_pickUp _ rfl] at hfin
      cases hfin
  next hasks =>
    obtain ⟨family, hfam, rfl⟩ := Option.map_eq_some_iff.mp hs
    exact ⟨qs, h.act hl (fun hn => by cases hn) (hends _ rfl) hfam⟩

theorem esqWorkerPickUp_eq {s : HashLocks}
    (h : esqWorkerPickUpFromLocalWakeUpList s w = .ok (some y, locks)) :
    ∃ a e, (s.wakeUpList w).head = some a ∧ (s.ctx a).session = some y
      ∧ locks = { s with wakeUpList := e } := by
  unfold esqWorkerPickUpFromLocalWakeUpList at h
  split at h
  · cases h
  next a ha =>
  dsimp only at h
  split at h
  · cases h
  split at h
  · cases h
  next z hz =>
  cases h
  exact ⟨a, _, ha, hz, rfl⟩

theorem LockWorld.cell_markWoken (z : Nat) : ∃ f : Session → Session, (∀ c, (f c).kin = c.kin) ∧
    (∀ c, (f c).sessionType = c.sessionType ∧ (f c).lc = c.lc ∧ (f c).timeouts = c.timeouts) ∧
    (s.markWoken y).cell z = (s.cell z).withSession f := by
  unfold LockWorld.cell LockWorld.markWoken FamilyRun.observe
  dsimp only
  rw [Heap.cell_modify]
  by_cases hz : z = y
  · subst hz
    rw [if_pos rfl]
    refine ⟨_, ?_, ?_, rfl⟩
    · exact fun _ => rfl
    · exact fun _ => ⟨rfl, rfl, rfl⟩
  · rw [if_neg hz]
    exact ⟨id, fun _ => rfl, fun _ => ⟨rfl, rfl, rfl⟩, rfl⟩

theorem WaiterInv.markWoken (h : WaiterInv s qs ws)
    (hf : esqWorkerPickUpFromLocalWakeUpList s.run.locks w = .ok (some y, locks)) :
    ∃ ws', WaiterInv (({ s with run := { s.run with locks } } : LockWorld).markWoken y) qs ws' := by
  have hstep : lockStep s.run (.pickUp w) = some { s.run with locks } := by
    rw [lockStep, hf]
  obtain ⟨ws', hlocks, hsub⟩ := h.locks.pickUp hstep
  obtain ⟨a, e, -, -, rfl⟩ := esqWorkerPickUp_eq hf
  have hpopped : WaiterInv { s with
      run := { s.run with locks := { s.run.locks with wakeUpList := e } } } qs ws' :=
    ⟨h.family, hlocks, h.owned, fun v z i ha => h.wake v z i (hsub v _ ha), h.waits⟩
  refine ⟨ws', ?_⟩
  generalize ({ s with run := { s.run with locks := { s.run.locks with wakeUpList := e } } }
    : LockWorld) = u at hpopped
  have hcell := u.cell_markWoken (y := y)
  have hcontrol : ∀ z, SameControl (u.cell z) ((u.markWoken y).cell z) := fun z => by
    obtain ⟨f, -, hf, heq⟩ := hcell z
    rw [heq]
    exact SessionCell.control_withSession (hf _).1 (hf _).2.1
  have hfamily : SameFamily u.heap (u.markWoken y).heap := by
    refine ⟨fun z => ?_, rfl, rfl⟩
    obtain ⟨f, hkin, -, heq⟩ := hcell z
    show ((u.markWoken y).cell z).session.kin = _
    rw [heq]
    exact hkin _
  have hlive : ∀ z, (u.markWoken y).heap.Live z ↔ u.heap.Live z := fun z => hfamily.live_iff
  have hkept := hpopped.family.same hfamily
    (fun z hz => (hcontrol z).tidy (hpopped.family.tidy z ((hlive z).mp hz)))
    fun _ he => by cases he
  exact hpopped.spares hkept fun z hz => ⟨(hlive z).mpr hz, hcontrol z⟩

theorem LockWorld.PickUpSafe.markWoken (hsafe : s.PickUpSafe y b)
    (hf : esqWorkerPickUpFromLocalWakeUpList s.run.locks w = .ok (some y, locks)) :
    (({ s with run := { s.run with locks } } : LockWorld).markWoken y).PickUpSafe y b := by
  obtain ⟨a, e, -, -, rfl⟩ := esqWorkerPickUp_eq hf
  obtain ⟨f, -, hf, heq⟩ := LockWorld.cell_markWoken (s := { s with
    run := { s.run with locks := { s.run.locks with wakeUpList := e } } }) (y := y) y
  unfold LockWorld.PickUpSafe
  rw [heq]
  rintro ⟨ht, hlc, hw⟩ ⟨hrun, halloc, hqueue, hwrite⟩
  show 0 < (f (s.cell y).session).timeouts
  rw [(hf _).2.2]
  exact hsafe ⟨(hf _).1.symm.trans ht, (hf _).2.1.symm.trans hlc, hw⟩
    ⟨hrun, halloc, hqueue, hwrite⟩

end

/-! ## 実行の全体 -/

section

variable {s t : LockWorld} {qs : Int → List CtxAddr} {ws : Nat → List CtxAddr}

theorem WaiterInv.onSession {op : FamilyOp} (h : WaiterInv s qs ws)
    (hsafe : LockWorldSafe s (.session op)) (hs : s.onSession op = some t) :
    WaiterInv t qs ws := by
  unfold LockWorld.onSession at hs
  split at hs
  · obtain ⟨family, hfam, rfl⟩ := Option.map_eq_some_iff.mp hs
    exact h.renewed (Or.inl rfl) hfam
  · obtain ⟨family, hfam, rfl⟩ := Option.map_eq_some_iff.mp hs
    exact h.renewed (Or.inr rfl) hfam
  · split at hs
    case isFalse => cases hs
    next hl =>
    obtain ⟨family, hfam, rfl⟩ := Option.map_eq_some_iff.mp hs
    exact h.act hl.1 hsafe.1 hsafe.2 hfam
  next hact =>
    obtain ⟨family, hfam, rfl⟩ := Option.map_eq_some_iff.mp hs
    exact h.spares (runInv_step _ h.family hfam) fun z hz =>
      familyStep_spares h.family hfam (fun x a he => hact x a he) hz

theorem WaiterInv.wakeUp {w : Nat} {b : Bool} {os : Int} (h : WaiterInv s qs ws)
    (hsafe : LockWorldSafe s (.wakeUp w b os)) (hs : s.wakeUp w b os = some t) :
    ∃ qs' ws', WaiterInv t qs' ws' := by
  unfold LockWorld.wakeUp at hs
  split at hs
  · cases hs
  · cases hs
    exact ⟨qs, ws, h⟩
  next y locks hf =>
  obtain ⟨ws', hmarked⟩ := h.markWoken hf
  obtain ⟨a, e, ha, hy, -⟩ := esqWorkerPickUp_eq hf
  obtain ⟨qs', h'⟩ := hmarked.pickUp ((hsafe a ha y hy).markWoken hf) hs
  exact ⟨qs', ws', h'⟩

end

theorem waiterInv_step (s : LockWorld) (op : LockWorldOp) (t : LockWorld)
    (h : ∃ qs ws, WaiterInv s qs ws) (hsafe : LockWorldSafe s op)
    (hs : lockWorldStep s op = some t) : ∃ qs ws, WaiterInv t qs ws := by
  obtain ⟨qs, ws, h⟩ := h
  cases op with
  | session op => exact ⟨qs, ws, h.onSession hsafe hs⟩
  | pickUp x w b os =>
    obtain ⟨qs', h'⟩ := h.pickUp hsafe hs
    exact ⟨qs', ws, h'⟩
  | wakeUp w b os => exact h.wakeUp hsafe hs
  | release x idx =>
    obtain ⟨run, hrun, rfl⟩ := Option.map_eq_some_iff.mp hs
    exact h.release hsafe hrun

/--
**どの一歩も要求を列に置き去りにしない実行では、列にある要求はどれも、ロックを持つか待っている
生きた session のものである。**

解放で新しくロックを持つのも、待っている session だけである。
-/
theorem no_abandoned_waiters (b : Bool) (ops : List LockWorldOp) (s : LockWorld)
    (hsafe : Along lockWorldStep LockWorldSafe (LockWorld.init b) ops)
    (hrun : runFrom lockWorldStep (LockWorld.init b) ops = some s) : NoAbandonedWaiters s := by
  obtain ⟨qs, ws, h⟩ := runFrom_invariant waiterInv_step ⟨_, _, waiterInv_init b⟩ hsafe hrun
  exact h.noAbandonedWaiters

/-- session 0 が書きの 3 番を取り、session 1 が同じロックを書きで求める。 -/
def secondRequest (timeouts : Int) : List LockWorldOp :=
  [.session (.new 0),
    .session (.act 0
      { action := .hashLockWrite, params := { timeouts := 5, hashLockIdx := 3 } }),
    .session (.act 0 { action := .windUp }), .pickUp 0 0 true 0,
    .session (.new 1),
    .session (.act 1 { action := .hashLockWrite, params := { timeouts, hashLockIdx := 3 } }),
    .session (.act 1 { action := .windUp }), .pickUp 1 0 true 0]

/-- `timeouts` が 5 なら session 1 は待ち、列の二つの要求はどちらも見捨てられていない。 -/
theorem no_abandoned_waiters_second_request :
    ∃ s, runFrom lockWorldStep (LockWorld.init false) (secondRequest 5) = some s
      ∧ s.run.locks.queue 3 = [.slot 0 0, .slot 1 0] ∧ (s.cell 1).WaitsFor 3
      ∧ NoAbandonedWaiters s := by
  refine ⟨_, rfl, by decide +kernel, by decide +kernel,
    no_abandoned_waiters false (secondRequest 5) _ ?_ rfl⟩
  refine ⟨trivial, ?_⟩
  rintro _ ⟨⟩
  refine ⟨⟨nofun, fun h => absurd h (by decide)⟩, ?_⟩
  rintro _ ⟨⟩
  refine ⟨⟨nofun, fun h => absurd h (by decide)⟩, ?_⟩
  rintro _ ⟨⟩
  refine ⟨fun _ hc => absurd rfl hc.queue, ?_⟩
  rintro _ ⟨⟩
  refine ⟨trivial, ?_⟩
  rintro _ ⟨⟩
  refine ⟨⟨nofun, fun h => absurd h (by decide)⟩, ?_⟩
  rintro _ ⟨⟩
  refine ⟨⟨nofun, fun h => absurd h (by decide)⟩, ?_⟩
  rintro _ ⟨⟩
  refine ⟨fun _ _ => by decide, ?_⟩
  rintro _ ⟨⟩
  trivial

/--
`timeouts` が 0 の session 1 はその場で断られるが、その要求は列に残る。session 0 が解放すると、
待っていない session 1 がロックを持つ。
-/
theorem refused_request_stays :
    (∃ s t, runFrom lockWorldStep (LockWorld.init false) (secondRequest 0) = some s
      ∧ (s.cell 1).wait.lc = .active ∧ s.run.locks.queue 3 = [.slot 0 0, .slot 1 0]
      ∧ ¬ NoAbandonedWaiters s
      ∧ lockWorldStep s (.release 0 3) = some t ∧ Holds t.run 1 3
      ∧ (t.cell 1).wait.lc = .active)
    ∧ ¬ ∀ b ops s, runFrom lockWorldStep (LockWorld.init b) ops = some s →
      NoAbandonedWaiters s := by
  have hqueue : ∀ s, runFrom lockWorldStep (LockWorld.init false) (secondRequest 0) = some s →
      ¬ NoAbandonedWaiters s := by
    rintro _ ⟨⟩ h
    obtain ⟨z, hz, -, hwait⟩ := h.queued 3 (.slot 1 0) (by decide +kernel)
    have hz : some 1 = some z := hz
    obtain rfl := Option.some.inj hz
    rcases hwait with hold | hwait
    · exact absurd hold (by decide +kernel)
    · exact absurd hwait (by decide +kernel)
  refine ⟨⟨_, _, rfl, by decide +kernel, by decide +kernel, hqueue _ rfl, rfl, ?_,
    by decide +kernel⟩, fun h => hqueue _ rfl (h false (secondRequest 0) _ rfl)⟩
  exact ⟨_, List.mem_cons_self, rfl⟩

end Esq
