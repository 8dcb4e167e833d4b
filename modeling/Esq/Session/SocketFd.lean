import Esq.Infra.FirstSeen
import Esq.Session.CellFrame
import Esq.Session.HashCall

/-!
# fd を仕掛ける要求

`esq_session_set_socket_fd` は `ACTION_ADD_SOCK_FD_SINGLE` を渡す。求めた event と timeout が
poll と timing list に届くまでの道は、session の型ごとに違う。

* 新しい session と hash lock の session は single shot に移り、先頭で欄を写す
* callback の中の single shot は欄を写して `__wait_for_reinstall` で止まる
* coroutine の session は、欄を写さずにその場で仕掛ける

写す三つでは、仕掛けるまで欄が書き換わらない（`SessionCell.Pending`）。coroutine の session の
欄は `esq_session_new` が 0 にしたままである（`SessionCell.Unset`）。

* `SessionCell.act_request`、`SessionCell.Pending.act` — 写す三つの一歩
* `SessionCell.act_request_mco` — coroutine の session の一歩
-/

namespace Esq

open Infra

/-! ## 要求 -/

/--
`esq_session_set_socket_fd`

callback を渡さないでよいのは coroutine の session だけである。`session->mco` は
coroutine が終わると NULL になる。`os` は仕掛けるときの `esq_os_events_add_socket_fd` の戻り値。
-/
def Heap.esqSessionSetSocketFd (h : Heap) (x : Nat) (params : FdParams) (os : Int) :
    Except Fault (Int × Heap) :=
  if params.cb = 0 ∧ ¬ ((h.session x).sessionType = .mco ∧ h.ended x = false) then
    .error .designError
  else h.esqSessionTakeAction x { action := .addSockFdSingle params, os }

/-- `esq_os_events_add_socket_fd` が `POLLIN` と `POLLOUT` を立てるかどうか。 -/
def pollEvents (expEventBits : Nat) : Bool × Bool :=
  (esqEventBitRead &&& expEventBits ≠ 0, esqEventBitWrite &&& expEventBits ≠ 0)

def deadlineOf (bucket : Option WorkerList) (timeouts timeoutms : Int) : Option (Int × Int) :=
  match bucket with
  | none => none
  | some .ofNoTime => none
  | some _ => some (timeouts, timeoutms)

/-- 仕掛けた poll と、そのとき入った timing list。 -/
structure Arming where
  fd : Int
  expEventBits : Nat
  bucket : Option WorkerList
  deadline : Option (Int × Int)
deriving DecidableEq, Repr

/-- 仕掛けたものが、求めた event と timeout のものである。 -/
structure Arming.Meets (p : Arming) (params : FdParams) : Prop where
  fd : p.fd = params.fd
  events : pollEvents p.expEventBits = pollEvents params.expEventBits
  bucket : p.bucket = some (timingList params.timeouts params.timeoutms)
  deadline : p.deadline = deadlineOf (some (timingList params.timeouts params.timeoutms))
    params.timeouts params.timeoutms

def Effect.poll : Effect → Option (Int × Nat)
  | .addSocketFd fd expEventBits => some (fd, expEventBits)
  | _ => none

def Effect.bucket : Effect → Option WorkerList
  | .joinHead l => some l
  | _ => none

/-- 操作の列の中で仕掛けた poll。timeout は session の欄にある。 -/
def armingOf (s : Session) (es : List Effect) : Option Arming :=
  (es.findSome? Effect.poll).map fun poll =>
    let bucket := es.findSome? Effect.bucket
    { fd := poll.1
      expEventBits := poll.2
      bucket
      deadline := deadlineOf bucket s.timeouts s.timeoutms }

/-- 直前の操作が session `x` の poll を仕掛けたなら、それ。 -/
def FamilyRun.armed (x : Nat) (s : FamilyRun) : Option Arming :=
  armingOf (s.heap.session x) (s.heap.effects x)

/-- session `x` に別の要求を渡したり、番地 `x` を別の session に使ったりしない。 -/
def FamilyOp.Keeps (x : Nat) : FamilyOp → Prop
  | .new y => y ≠ x
  | .startMco y => y ≠ x
  | .act y a => y = x → ∀ q, a.action ≠ .addSockFdSingle q
  | .bundle _ _ _ => True
  | .collect _ => True

theorem armingOf_eq_none {s : Session} {es : List Effect} :
    armingOf s es = none ↔ es.findSome? Effect.poll = none := by
  unfold armingOf
  rw [Option.map_eq_none_iff]

/-! ## session の居場所 -/

def Lc.Installing (lc : Lc) : Prop :=
  lc = .single .initial ∨ lc = .single .waitForCpu ∨ lc = .single .waitForReinstall

structure Session.HasParams (s : Session) (params : FdParams) : Prop where
  fd : s.fd = params.fd
  expEventBits : s.expEventBits = params.expEventBits
  timeouts : s.timeouts = params.timeouts
  timeoutms : s.timeoutms = params.timeoutms

/-- 求めた欄を持って、仕掛けるのを待っている。 -/
structure SessionCell.Pending (c : SessionCell) (params : FdParams) : Prop where
  sessionType : c.session.sessionType = .socketCb
  lc : c.session.lc.Installing
  fields : c.session.HasParams params

/-- 次の要求を受けるまで、single shot の poll を仕掛けない。 -/
def SessionCell.Spent (c : SessionCell) : Prop :=
  c.session.sessionType = .socketCb → ¬ c.session.lc.Installing ∧ c.session.lc ≠ .start

/-- coroutine の session は動き始めていて、event と timeout の欄は 0 のままである。 -/
def SessionCell.Unset (c : SessionCell) : Prop :=
  c.session.sessionType = .mco → c.mco ≠ .start ∧ c.session.expEventBits = 0
    ∧ c.session.timeouts = 0 ∧ c.session.timeoutms = 0

theorem SessionCell.Pending.of_work {c d : SessionCell} {params : FdParams}
    (hw : d.work = c.work) (h : c.Pending params) : d.Pending params where
  sessionType := (congrArg (fun e => e.session.sessionType) hw).trans h.sessionType
  lc := by
    have hlc : d.session.lc = c.session.lc := congrArg (fun e => e.session.lc) hw
    rw [hlc]
    exact h.lc
  fields :=
    { fd := (congrArg (fun e => e.session.fd) hw).trans h.fields.fd
      expEventBits := (congrArg (fun e => e.session.expEventBits) hw).trans h.fields.expEventBits
      timeouts := (congrArg (fun e => e.session.timeouts) hw).trans h.fields.timeouts
      timeoutms := (congrArg (fun e => e.session.timeoutms) hw).trans h.fields.timeoutms }

theorem SessionCell.Spent.of_work {c d : SessionCell} (hw : d.work = c.work) (h : c.Spent) :
    d.Spent := by
  have htype : d.session.sessionType = c.session.sessionType :=
    congrArg (fun e => e.session.sessionType) hw
  have hlc : d.session.lc = c.session.lc := congrArg (fun e => e.session.lc) hw
  unfold SessionCell.Spent
  rw [htype, hlc]
  exact h

theorem SessionCell.Unset.of_work {c d : SessionCell} (hw : d.work = c.work) (h : c.Unset) :
    d.Unset := by
  intro htype
  obtain ⟨hmco, hbits, hs, hms⟩ :=
    h ((congrArg (fun e => e.session.sessionType) hw).symm.trans htype)
  refine ⟨?_, ?_, ?_, ?_⟩
  · have : d.mco = c.mco := congrArg (fun e => e.mco) hw
    rwa [this]
  · exact (congrArg (fun e => e.session.expEventBits) hw).trans hbits
  · exact (congrArg (fun e => e.session.timeouts) hw).trans hs
  · exact (congrArg (fun e => e.session.timeoutms) hw).trans hms

/-! ## single shot の仕掛け方 -/

section

variable {s : Session} {p : PtRun} {action : Action} {os fetch : Int} {isEnd : Bool}
  {h h' : HashWait} {mco lc lc' : McoLabel} {hparams : HashLockParams} {params : FdParams}

theorem Lc.not_installing_single {l : SingleShotLabel} (h₁ : l ≠ .initial) (h₂ : l ≠ .waitForCpu)
    (h₃ : l ≠ .waitForReinstall) : ¬ (Lc.single l).Installing := by
  rintro (h | h | h)
  · exact h₁ (Lc.single.inj h)
  · exact h₂ (Lc.single.inj h)
  · exact h₃ (Lc.single.inj h)

/-- 仕掛け終えるか諦めるかした single shot の label に止まる。 -/
structure PtRun.Past (p : PtRun) : Prop where
  poll : p.effects.findSome? Effect.poll = none
  lc : ¬ p.session.lc.Installing ∧ p.session.lc ≠ .start

theorem PtRun.Past.active (hp : p.effects.findSome? Effect.poll = none)
    (hlc : p.session.lc = .single .active) : p.Past := by
  refine ⟨hp, ?_, ?_⟩
  · rw [hlc]
    exact Lc.not_installing_single nofun nofun nofun
  · rw [hlc]
    exact nofun

theorem SingleShot.installFd_past_or_arms (os : Int) (hf : s.HasParams params) :
    (SingleShot.installFd { session := s } os).Past ∨
      ∃ p, armingOf (SingleShot.installFd { session := s } os).session
          (SingleShot.installFd { session := s } os).effects = some p ∧ p.Meets params := by
  unfold SingleShot.installFd
  split
  · split
    · exact Or.inl (.active rfl rfl)
    · refine Or.inr ⟨_, rfl, ?_⟩
      have hlist : s.timingList = timingList params.timeouts params.timeoutms := by
        unfold Session.timingList
        rw [hf.timeouts, hf.timeoutms]
      refine ⟨hf.fd, congrArg pollEvents hf.expEventBits, congrArg some hlist, ?_⟩
      show deadlineOf (some s.timingList) s.timeouts s.timeoutms = _
      rw [hlist, hf.timeouts, hf.timeoutms]
  · exact Or.inl ⟨rfl, Lc.not_installing_single nofun nofun nofun, nofun⟩

inductive PtRun.FromPending (p : PtRun) (action : Action) (params : FdParams) : Prop where
  /-- まだ仕掛けない -/
  | waits (poll : p.effects.findSome? Effect.poll = none) (lc : p.session.lc.Installing)
    (fields : p.session.HasParams params)
  /-- 仕掛けずに先へ進む -/
  | past (past : p.Past)
  /-- 仕掛ける -/
  | arms (caller : action = .windUp ∨ action = .pickUp) (op : p.session.postOp = popNoOp)
    (q : Arming) (armed : armingOf p.session p.effects = some q) (meets : q.Meets params)

theorem SingleShot.fromPending_installFd (hf : s.HasParams params)
    (ha : action = .windUp ∨ action = .pickUp) :
    (SingleShot.installFd { session := s } os).FromPending action params := by
  rcases SingleShot.installFd_past_or_arms os hf with hpast | ⟨q, harmed, hmeets⟩
  · exact .past hpast
  · refine .arms ha ?_ q harmed hmeets
    unfold SingleShot.installFd
    split
    · split <;> rfl
    · rfl

theorem esqPtOfSingleShotSocket_pending (hlc : s.lc.Installing) (hf : s.HasParams params)
    (h : esqPtOfSingleShotSocket s action os = .ok p) : p.FromPending action params := by
  unfold esqPtOfSingleShotSocket at h
  rcases hlc with hlc | hlc | hlc <;> rw [hlc] at h
  · simp only [SingleShot.initial] at h
    split at h
    · cases h
      exact .waits rfl (Or.inr (Or.inl rfl)) ⟨hf.fd, hf.expEventBits, hf.timeouts, hf.timeoutms⟩
    · cases h
      exact .waits rfl (Or.inr (Or.inl rfl)) ⟨hf.fd, hf.expEventBits, hf.timeouts, hf.timeoutms⟩
    · split at h <;> cases h
      exact .waits rfl (Or.inl rfl) ⟨hf.fd, hf.expEventBits, hf.timeouts, hf.timeoutms⟩
    · cases h
  · simp only [SingleShot.waitForCpu] at h
    split at h <;> cases h
    exact SingleShot.fromPending_installFd hf (Or.inr rfl)
  · simp only [SingleShot.waitForReinstall] at h
    split at h <;> cases h
    · exact SingleShot.fromPending_installFd hf (Or.inl rfl)
    · exact .waits rfl (Or.inr (Or.inr rfl)) ⟨hf.fd, hf.expEventBits, hf.timeouts, hf.timeoutms⟩
    · exact .waits rfl (Or.inr (Or.inr rfl)) ⟨hf.fd, hf.expEventBits, hf.timeouts, hf.timeoutms⟩

theorem esqPtOfSingleShotSocket_pending_op (hlc : s.lc.Installing)
    (h : esqPtOfSingleShotSocket s action os = .ok p) :
    p.session.sessionType = s.sessionType ∧ Calm p.session.postOp := by
  have hinstall : (SingleShot.installFd { session := s } os).session.sessionType = s.sessionType
      ∧ Calm (SingleShot.installFd { session := s } os).session.postOp := by
    unfold SingleShot.installFd
    split
    · split <;> exact ⟨rfl, calm_noOp⟩
    · exact ⟨rfl, calm_noOp⟩
  unfold esqPtOfSingleShotSocket at h
  rcases hlc with hlc | hlc | hlc <;> rw [hlc] at h
  · simp only [SingleShot.initial] at h
    split at h
    · cases h
      exact ⟨rfl, calm_joinLocal⟩
    · cases h
      exact ⟨rfl, calm_joinGlobal⟩
    · split at h <;> cases h
      exact ⟨rfl, calm_noOp⟩
    · cases h
  · simp only [SingleShot.waitForCpu] at h
    split at h <;> cases h
    exact hinstall
  · simp only [SingleShot.waitForReinstall] at h
    split at h <;> cases h
    · exact hinstall
    · exact ⟨rfl, calm_noOp⟩
    · exact ⟨rfl, calm_noOp⟩

/-! ## 要求の無い一歩は single shot の poll を仕掛けない -/

theorem esqPtOfNoFd_spent (h : esqPtOfNoFd s action = .ok p)
    (ha : ∀ q, action ≠ .addSockFdSingle q) (ht : s.sessionType ≠ .socketCb) :
    p.effects.findSome? Effect.poll = none ∧ p.session.sessionType ≠ .socketCb := by
  unfold esqPtOfNoFd at h
  split at h
  · cases h
    exact ⟨rfl, ht⟩
  · cases h
    exact ⟨rfl, nofun⟩
  · exact absurd rfl (ha _)
  · cases h
    exact ⟨rfl, nofun⟩
  · cases h
    exact ⟨rfl, nofun⟩
  · cases h

theorem SingleShot.past_removeFdThenActive (hp : p.effects = []) :
    (SingleShot.removeFdThenActive p os).Past := by
  unfold SingleShot.removeFdThenActive PtRun.changeToNoTimingList
  split
  · dsimp only
    split
    · exact .active (by simp [hp, Effect.poll]) rfl
    · refine ⟨?_, Lc.not_installing_single nofun nofun nofun, nofun⟩
      split <;> simp [hp, Effect.poll]
  · exact .active (by simp [hp, Effect.poll]) rfl

theorem PtRun.Past.rests (hp : p.Past) (hop : Calm p.session.postOp) :
    p.effects.findSome? Effect.poll = none ∧ (p.session.sessionType = .socketCb →
      (¬ p.session.lc.Installing ∧ p.session.lc ≠ .start) ∧
        wantsSwitch p.session.postOp = false) :=
  ⟨hp.poll, fun _ => ⟨hp.lc, wantsSwitch_of_calm hop⟩⟩

theorem PtRun.Past.single {l : SingleShotLabel} (hp : p.effects.findSome? Effect.poll = none)
    (hlc : p.session.lc = .single l)
    (hl : l ≠ .initial ∧ l ≠ .waitForCpu ∧ l ≠ .waitForReinstall) : p.Past := by
  refine ⟨hp, ?_, ?_⟩
  · rw [hlc]
    exact Lc.not_installing_single hl.1 hl.2.1 hl.2.2
  · rw [hlc]
    exact nofun

theorem esqPtOfSingleShotSocket_spent (hlc : ¬ s.lc.Installing ∧ s.lc ≠ .start)
    (hop : s.postOp = popNoOp) (ha : ∀ q, action ≠ .addSockFdSingle q)
    (h : esqPtOfSingleShotSocket s action os = .ok p) :
    p.effects.findSome? Effect.poll = none ∧ (p.session.sessionType = .socketCb →
      (¬ p.session.lc.Installing ∧ p.session.lc ≠ .start) ∧
        wantsSwitch p.session.postOp = false) := by
  have hremove (bits : Nat) : Calm (SingleShot.removeFdThenActive
      ((({ session := s } : PtRun).addEventBits bits).post popNoOp) os).session.postOp := by
    unfold SingleShot.removeFdThenActive PtRun.changeToNoTimingList
    split
    · dsimp only
      split
      · exact calm_noOp
      · split <;> exact calm_noOp
    · exact calm_noOp
  unfold esqPtOfSingleShotSocket at h
  rcases hl : s.lc with _ | l | l
  · exact absurd hl hlc.2
  case multi =>
    rw [hl] at h
    cases h
    exact PtRun.Past.rests ⟨rfl, hlc⟩ (Or.inl hop)
  rw [hl] at h
  cases l with
  | initial => exact absurd (Or.inl hl) hlc.1
  | waitForCpu => exact absurd (Or.inr (Or.inl hl)) hlc.1
  | waitForReinstall => exact absurd (Or.inr (Or.inr hl)) hlc.1
  | windedUp =>
    simp only [SingleShot.windedUp] at h
    split at h <;> cases h
    · exact PtRun.Past.rests (.active rfl rfl) calm_noOp
    · exact PtRun.Past.rests (SingleShot.past_removeFdThenActive rfl) (hremove _)
    · exact PtRun.Past.rests (SingleShot.past_removeFdThenActive rfl) (hremove _)
  | waitForRemovedThenActive =>
    simp only [SingleShot.waitForRemovedThenActive] at h
    split at h <;> cases h
    · exact PtRun.Past.rests (.active rfl rfl) calm_noOp
    · exact PtRun.Past.rests (.single rfl rfl (by simp)) calm_noOp
  | active =>
    simp only [SingleShot.active] at h
    split at h <;> cases h
    · exact PtRun.Past.rests (.active rfl hl) calm_noOp
    · exact PtRun.Past.rests (.active rfl rfl) calm_noOp
    · exact PtRun.Past.rests (.single rfl rfl (by simp)) calm_returnValue
  | executeCb =>
    simp only [SingleShot.executeCb] at h
    split at h
    · cases h
      have hpast : PtRun.Past ((({ session := s } : PtRun).post popFreeSession).goto
          (.single .die)) := .single rfl rfl (by simp)
      exact ⟨rfl, fun _ => ⟨hpast.lc, wantsSwitch_of_ends (Or.inl rfl)⟩⟩
    · cases h
      exact ⟨rfl, (by simp)⟩
    · cases h
      exact PtRun.Past.rests (.single rfl rfl (by simp)) calm_noOp
    · exact absurd rfl (ha _)
    · cases h
      exact PtRun.Past.rests (.single rfl rfl (by simp)) calm_noOp
    · cases h
      exact PtRun.Past.rests (.single rfl rfl (by simp)) calm_noOp
    · cases h
      exact ⟨rfl, (by simp)⟩
    · cases h
      exact ⟨rfl, (by simp)⟩
    · cases h
  | die => cases h

theorem esqPtOfMultiShotSocket_spent (h : esqPtOfMultiShotSocket s action os = .ok p) :
    p.effects.findSome? Effect.poll = none ∧ p.session.sessionType = s.sessionType := by
  have hinstall : (MultiShot.installFd { session := s } os).effects.findSome? Effect.poll = none
      ∧ (MultiShot.installFd { session := s } os).session.sessionType = s.sessionType := by
    unfold MultiShot.installFd
    split
    · split <;> exact ⟨rfl, rfl⟩
    · exact ⟨rfl, rfl⟩
  unfold esqPtOfMultiShotSocket at h
  split at h
  · cases h
    exact ⟨rfl, rfl⟩
  · simp only [MultiShot.initial] at h
    split at h <;> cases h <;> exact ⟨rfl, rfl⟩
  · simp only [MultiShot.waitForCpu] at h
    split at h <;> cases h
    exact hinstall
  · simp only [MultiShot.windedUp] at h
    split at h <;> cases h <;> exact ⟨rfl, rfl⟩
  · simp only [MultiShot.active] at h
    split at h <;> cases h <;> exact ⟨rfl, rfl⟩
  · simp only [MultiShot.executeCb] at h
    split at h
    · split at h
      · split at h <;> cases h <;> exact ⟨rfl, rfl⟩
      · cases h
        exact ⟨rfl, rfl⟩
    · split at h
      · split at h <;> cases h <;> exact ⟨rfl, rfl⟩
      · cases h
        exact ⟨rfl, rfl⟩
    all_goals
      cases h <;> exact ⟨rfl, rfl⟩
  · simp only [MultiShot.waitForRemovedAndWindUp] at h
    split at h <;> cases h <;> exact ⟨rfl, rfl⟩
  · simp only [MultiShot.waitForRemoved] at h
    split at h <;> cases h <;> exact ⟨rfl, rfl⟩
  · simp only [MultiShot.waitForWindUp] at h
    split at h <;> cases h <;> exact ⟨rfl, rfl⟩
  · cases h
  · cases h
    exact ⟨rfl, rfl⟩

theorem esqPtOfHashLock_spent (ht : s.sessionType = .waitForHashLock)
    (hp : esqPtOfHashLock s h action hparams fetch = .ok (p, h')) :
    p.effects.findSome? Effect.poll = none ∧ p.session.sessionType ≠ .mco ∧
      (p.session.sessionType = .socketCb → ∃ q, action = .addSockFdSingle q) := by
  have stays {p : PtRun} (hp : p.effects.findSome? Effect.poll = none)
      (hpt : p.session.sessionType = .waitForHashLock) :
      p.effects.findSome? Effect.poll = none ∧ p.session.sessionType ≠ .mco ∧
        (p.session.sessionType = .socketCb → ∃ q, action = .addSockFdSingle q) := by
    rw [hpt]
    exact ⟨hp, (by simp), (by simp)⟩
  unfold esqPtOfHashLock at hp
  dsimp only at hp
  split at hp
  · cases hp
    exact stays rfl ht
  · obtain ⟨q, hq, heq⟩ := map_eq_ok.mp hp
    cases heq
    simp only [HashLockPt.initial] at hq
    split at hq
    · cases hq
      exact stays rfl ht
    · cases hq
      exact stays rfl ht
    · split at hq <;> cases hq
      exact stays rfl ht
    · cases hq
  · obtain ⟨q, hq, heq⟩ := map_eq_ok.mp hp
    cases heq
    simp only [HashLockPt.waitForCpu] at hq
    split at hq <;> cases hq
    unfold HashLockPt.tryFetchHashLock
    split
    · split <;> exact stays rfl ht
    · split <;> exact stays rfl ht
  · obtain ⟨q, hq, heq⟩ := map_eq_ok.mp hp
    cases heq
    simp only [HashLockPt.windedUp] at hq
    split at hq <;> cases hq <;> exact stays rfl ht
  · obtain ⟨q, hq, heq⟩ := map_eq_ok.mp hp
    cases heq
    simp only [HashLockPt.active] at hq
    split at hq <;> cases hq <;> exact stays rfl ht
  · obtain ⟨q, hq, heq⟩ := map_eq_ok.mp hp
    cases heq
    simp only [HashLockPt.executeCb] at hq
    split at hq <;> cases hq
    · exact stays rfl ht
    · exact ⟨rfl, (by simp), (by simp)⟩
    · exact stays rfl ht
    · exact ⟨rfl, (by simp), fun _ => ⟨_, rfl⟩⟩
    · exact stays rfl ht
    · exact stays rfl ht
    · exact ⟨rfl, (by simp), (by simp)⟩
    · exact ⟨rfl, (by simp), (by simp)⟩
  · cases hp

end

/-! ## coroutine の一歩 -/

section

variable {s : Session} {p : PtRun} {action : Action} {os : Int} {isEnd : Bool}
  {lc lc' : McoLabel} {params : FdParams}

/-- coroutine の状態機械は、待つ event と timeout の欄を書かない。 -/
structure PtRun.KeepsWait (p : PtRun) (s : Session) : Prop where
  sessionType : p.session.sessionType = s.sessionType
  expEventBits : p.session.expEventBits = s.expEventBits
  timeouts : p.session.timeouts = s.timeouts
  timeoutms : p.session.timeoutms = s.timeoutms

theorem esqPtOfMco_keepsWait (h : esqPtOfMco s lc action os isEnd = .ok (p, lc')) :
    p.KeepsWait s ∧ lc' ≠ .start := by
  unfold esqPtOfMco at h
  dsimp only at h
  split at h
  · cases h
    exact ⟨⟨rfl, rfl, rfl, rfl⟩, (by simp)⟩
  · cases action <;> cases h <;> exact ⟨⟨rfl, rfl, rfl, rfl⟩, (by simp)⟩
  · cases action <;> cases h <;> exact ⟨⟨rfl, rfl, rfl, rfl⟩, (by simp)⟩
  · simp only [McoPt.executeCb] at h
    split at h
    · split at h
      · cases h
        exact ⟨⟨rfl, rfl, rfl, rfl⟩, (by simp)⟩
      · split at h <;> cases h
        exact ⟨⟨rfl, rfl, rfl, rfl⟩, (by simp)⟩
    · split at h
      · split at h <;> cases h <;> exact ⟨⟨rfl, rfl, rfl, rfl⟩, (by simp)⟩
      · cases h
        exact ⟨⟨rfl, rfl, rfl, rfl⟩, (by simp)⟩
    · cases h
      exact ⟨⟨rfl, rfl, rfl, rfl⟩, (by simp)⟩
    · cases h
      exact ⟨⟨rfl, rfl, rfl, rfl⟩, (by simp)⟩
    · cases h
  · simp only [McoPt.executeCbInstalledSocketFd] at h
    split at h
    · split at h
      · cases h
      · split at h <;> cases h <;> exact ⟨⟨rfl, rfl, rfl, rfl⟩, (by simp)⟩
    · cases h
      unfold McoPt.removeSocketFd
      split <;> exact ⟨⟨rfl, rfl, rfl, rfl⟩, (by simp)⟩
    all_goals
      cases h <;> exact ⟨⟨rfl, rfl, rfl, rfl⟩, (by simp)⟩

theorem esqPtOfMco_poll (h : esqPtOfMco s lc action os isEnd = .ok (p, lc'))
    (ha : ∀ q, action ≠ .addSockFdSingle q) : p.effects.findSome? Effect.poll = none := by
  unfold esqPtOfMco at h
  dsimp only at h
  split at h
  · cases h
    rfl
  · cases action <;> cases h <;> rfl
  · cases action <;> cases h <;> rfl
  · simp only [McoPt.executeCb] at h
    split at h
    · split at h
      · cases h
        rfl
      · split at h <;> cases h
        rfl
    · exact absurd rfl (ha _)
    · cases h
      rfl
    · cases h
      rfl
    · cases h
  · simp only [McoPt.executeCbInstalledSocketFd] at h
    split at h
    · split at h
      · cases h
      · split at h <;> cases h <;> rfl
    · cases h
      unfold McoPt.removeSocketFd
      split <;> rfl
    all_goals
      cases h <;> rfl

theorem esqPtOfMco_arms (hlc : lc ≠ .start) (hfd : fdNeedInstall params.fd)
    (h : esqPtOfMco s lc (.addSockFdSingle params) os isEnd = .ok (p, lc')) :
    p.session.postOp = popReturnValue ∧ ((os ≠ 0 ∧ p.session.r = os) ∨
      armingOf p.session p.effects = some {
        fd := params.fd
        expEventBits := s.expEventBits
        bucket := some s.timingList
        deadline := deadlineOf (some s.timingList) s.timeouts s.timeoutms }) := by
  unfold esqPtOfMco at h
  cases lc with
  | start => exact absurd rfl hlc
  | active => cases h
  | windedUp => cases h
  | executeCbInstalledSocketFd => cases h
  | executeCb =>
    simp only [McoPt.executeCb] at h
    rw [if_pos hfd] at h
    split at h
    next hos =>
      cases h
      exact ⟨rfl, Or.inl ⟨hos, rfl⟩⟩
    next hos =>
      cases h
      exact ⟨rfl, Or.inr rfl⟩

end

/-! ## session の一歩 -/

section

variable {c d : SessionCell} {a : ChassisAction} {es : List Effect} {params : FdParams}

theorem SessionCell.spent_of_type (ht : c.session.sessionType ≠ .socketCb) : c.Spent :=
  fun h => absurd h ht

theorem SessionCell.Spent.step (hs : c.Spent) (hop : c.session.postOp = popNoOp)
    (ha : ∀ q, a.action ≠ .addSockFdSingle q) (h : c.step a = .ok (d, es)) :
    es.findSome? Effect.poll = none ∧ (d.session.sessionType = .socketCb →
      (¬ d.session.lc.Installing ∧ d.session.lc ≠ .start) ∧
        wantsSwitch d.session.postOp = false) := by
  cases SessionCell.step_cases h with
  | hashLock htype _ hp =>
    obtain ⟨hpoll, -, hsock⟩ := esqPtOfHashLock_spent htype hp
    refine ⟨hpoll, fun ht => ?_⟩
    obtain ⟨q, hq⟩ := hsock ht
    exact absurd hq (ha q)
  | stuck htype => exact ⟨rfl, fun ht => nomatch htype.symm.trans ht⟩
  | mco htype hp =>
    refine ⟨esqPtOfMco_poll hp ha, fun ht => ?_⟩
    exact nomatch ((esqPtOfMco_keepsWait hp).1.sessionType.trans htype).symm.trans ht
  | single htype hp => exact esqPtOfSingleShotSocket_spent (hs htype) hop ha hp
  | multi htype hp =>
    obtain ⟨hpoll, hpt⟩ := esqPtOfMultiShotSocket_spent hp
    exact ⟨hpoll, fun ht => nomatch (hpt.trans htype).symm.trans ht⟩
  | noFd htype hp =>
    obtain ⟨hpoll, hpt⟩ := esqPtOfNoFd_spent hp ha (by rcases htype with ht | ht <;> simp [ht])
    exact ⟨hpoll, fun ht => absurd ht hpt⟩

theorem SessionCell.restart_request (ht : c.session.sessionType.IsTarget)
    (h : c.restart.ready.step a = .ok (d, es)) :
    es = [] ∧ (d.session.sessionType = .socketCb → d.Pending a.action.params) := by
  unfold SessionCell.step SessionCell.restart SessionCell.ready Session.ready at h
  rcases ht with ht | ht | ht
  · rw [ht] at h
    dsimp only [Session.step] at h
    cases h
    exact ⟨rfl, fun _ => ⟨rfl, Or.inl rfl, rfl, rfl, rfl, rfl⟩⟩
  · rw [ht] at h
    dsimp only [Session.step] at h
    cases h
    exact ⟨rfl, nofun⟩
  · rw [ht] at h
    dsimp only at h
    rw [if_pos rfl] at h
    cases h
    exact ⟨rfl, nofun⟩

theorem Stepped.isTarget {T : Prop} (h : Stepped T d)
    (hsw : wantsSwitch d.session.postOp = true) : d.session.sessionType.IsTarget := by
  cases h with
  | stay _ op =>
    rw [wantsSwitch_of_calm op] at hsw
    cases hsw
  | ends op =>
    rw [wantsSwitch_of_ends op] at hsw
    cases hsw
  | switch _ type => exact type

theorem SessionCell.Spent.act (hs : c.Spent) (ha : ∀ q, a.action ≠ .addSockFdSingle q)
    (h : c.act a = .ok (d, es)) : es.findSome? Effect.poll = none ∧ d.Spent := by
  have hready : c.ready.Spent := hs
  rcases SessionCell.act_cases h with ⟨hstep, -⟩ | ⟨e, ds, ds', hstep, hsw, hre, rfl⟩
  · obtain ⟨hpoll, hspent⟩ := hready.step rfl ha hstep
    exact ⟨hpoll, fun ht => (hspent ht).1⟩
  · obtain ⟨hpoll, hspent⟩ := hready.step rfl ha hstep
    have htarget := (SessionCell.step_stepped (c := c.ready) rfl hstep).isTarget hsw
    obtain ⟨rfl, -⟩ := SessionCell.restart_request htarget hre
    obtain ⟨-, -, htype⟩ := SessionCell.restart_step htarget hre
    refine ⟨by rwa [List.append_nil], fun ht => ?_⟩
    rw [(hspent (htype.symm.trans ht)).2] at hsw
    cases hsw

inductive SessionCell.FromPending (d : SessionCell) (es : List Effect) (action : Action)
    (params : FdParams) : Prop where
  | waits (poll : es.findSome? Effect.poll = none) (next : d.Pending params ∨ d.Spent)
  | arms (caller : action = .windUp ∨ action = .pickUp) (op : d.session.postOp = popNoOp)
    (q : Arming) (armed : armingOf d.session es = some q) (meets : q.Meets params)

theorem SessionCell.Pending.step (hc : c.Pending params) (h : c.step a = .ok (d, es)) :
    d.FromPending es a.action params ∧ wantsSwitch d.session.postOp = false := by
  have htype := hc.sessionType
  cases SessionCell.step_cases h with
  | single _ hp =>
    obtain ⟨hkeep, hop⟩ := esqPtOfSingleShotSocket_pending_op hc.lc hp
    refine ⟨?_, wantsSwitch_of_calm hop⟩
    cases esqPtOfSingleShotSocket_pending hc.lc hc.fields hp with
    | waits poll lc fields => exact .waits poll (Or.inl ⟨hkeep.trans htype, lc, fields⟩)
    | past past => exact .waits past.poll (Or.inr fun _ => past.lc)
    | arms caller op q armed meets => exact .arms caller op q armed meets
  | noFd ht => rcases ht with ht | ht <;> exact nomatch htype.symm.trans ht
  | hashLock ht | stuck ht | mco ht | multi ht => exact nomatch htype.symm.trans ht

theorem SessionCell.Pending.act (hc : c.Pending params) (h : c.act a = .ok (d, es)) :
    d.FromPending es a.action params := by
  have hready : c.ready.Pending params := ⟨hc.sessionType, hc.lc, hc.fields.fd,
    hc.fields.expEventBits, hc.fields.timeouts, hc.fields.timeoutms⟩
  rcases SessionCell.act_cases h with ⟨hstep, -⟩ | ⟨e, ds, ds', hstep, hsw, -⟩
  · exact (hready.step hstep).1
  · rw [(hready.step hstep).2] at hsw
    cases hsw

/-! ## 要求を受ける -/

theorem esqPtOfSingleShotSocket_request {s : Session} {p : PtRun} {os : Int}
    (ht : s.sessionType = .socketCb)
    (h : esqPtOfSingleShotSocket s (.addSockFdSingle params) os = .ok p) :
    p.effects.findSome? Effect.poll = none ∧
      (SessionCell.Pending { c with session := p.session } params
        ∨ SessionCell.Spent { c with session := p.session }) := by
  unfold esqPtOfSingleShotSocket at h
  rcases hlc : s.lc with _ | l | l
  · rw [hlc] at h
    cases h
    exact ⟨rfl, Or.inl ⟨ht, Or.inl rfl, rfl, rfl, rfl, rfl⟩⟩
  · rw [hlc] at h
    cases l <;> cases h
    exact ⟨rfl, Or.inl ⟨ht, Or.inr (Or.inr rfl), rfl, rfl, rfl, rfl⟩⟩
  · rw [hlc] at h
    cases h
    refine ⟨rfl, Or.inr fun _ => ⟨?_, ?_⟩⟩
    · show ¬ s.lc.Installing
      rw [hlc]
      rintro (h | h | h) <;> cases h
    · show s.lc ≠ .start
      rw [hlc]
      nofun

theorem SessionCell.step_request (ht : c.session.sessionType ≠ .mco)
    (ha : a.action = .addSockFdSingle params) (h : c.step a = .ok (d, es)) :
    es.findSome? Effect.poll = none ∧
      (wantsSwitch d.session.postOp = false → d.Pending params ∨ d.Spent) := by
  cases SessionCell.step_cases h with
  | hashLock htype _ hp =>
    obtain ⟨hpoll, -, -⟩ := esqPtOfHashLock_spent htype hp
    refine ⟨hpoll, fun hsw => Or.inr fun ht => ?_⟩
    rw [ha] at hp
    unfold esqPtOfHashLock at hp
    dsimp only at hp
    cases hw : c.wait.lc with
    | start =>
      rw [hw] at hp
      cases hp
      exact nomatch htype.symm.trans ht
    | executeCb =>
      rw [hw] at hp
      cases hp
      have hno : wantsSwitch popSwitchSessionType = false := hsw
      rw [wantsSwitch_switchSessionType] at hno
      cases hno
    | _ => rw [hw] at hp; cases hp
  | stuck htype => exact ⟨rfl, fun _ => Or.inr fun ht => nomatch htype.symm.trans ht⟩
  | mco htype => exact absurd htype ht
  | single htype hp =>
    rw [ha] at hp
    obtain ⟨hpoll, hnext⟩ := esqPtOfSingleShotSocket_request (c := c) htype hp
    exact ⟨hpoll, fun _ => hnext⟩
  | multi htype hp =>
    obtain ⟨hpoll, hpt⟩ := esqPtOfMultiShotSocket_spent hp
    exact ⟨hpoll, fun _ => Or.inr fun ht => nomatch (hpt.trans htype).symm.trans ht⟩
  | noFd _ hp =>
    rw [ha] at hp
    cases hp
    exact ⟨rfl, fun hno => nomatch wantsSwitch_switchSessionType.symm.trans hno⟩

theorem SessionCell.act_request (ht : c.session.sessionType ≠ .mco)
    (ha : a.action = .addSockFdSingle params) (h : c.act a = .ok (d, es)) :
    es.findSome? Effect.poll = none ∧ (d.Pending params ∨ d.Spent) := by
  rcases SessionCell.act_cases h with ⟨hstep, hsw⟩ | ⟨e, ds, ds', hstep, hsw, hre, rfl⟩
  · obtain ⟨hpoll, hnext⟩ := SessionCell.step_request (c := c.ready) ht ha hstep
    exact ⟨hpoll, hnext hsw⟩
  · obtain ⟨hpoll, -⟩ := SessionCell.step_request (c := c.ready) ht ha hstep
    have htarget := (SessionCell.step_stepped (c := c.ready) rfl hstep).isTarget hsw
    obtain ⟨rfl, hpending⟩ := SessionCell.restart_request htarget hre
    refine ⟨by rwa [List.append_nil], ?_⟩
    rw [ha] at hpending
    by_cases hd : d.session.sessionType = .socketCb
    · exact Or.inl (hpending hd)
    · exact Or.inr (SessionCell.spent_of_type hd)

theorem SessionCell.act_request_mco (hu : c.Unset) (ht : c.session.sessionType = .mco)
    (hfd : fdNeedInstall params.fd) (ha : a.action = .addSockFdSingle params)
    (h : c.act a = .ok (d, es)) :
    d.session.postOp = popReturnValue ∧ (d.session.r ≠ esqOk ∨
      armingOf d.session es = some {
        fd := params.fd
        expEventBits := 0
        bucket := some .ofNoTime
        deadline := none }) := by
  obtain ⟨hmco, hbits, hs, hms⟩ := hu ht
  have key {d : SessionCell} {es : List Effect} (hstep : c.ready.step a = .ok (d, es)) :
      d.session.postOp = popReturnValue ∧ (d.session.r ≠ esqOk ∨
        armingOf d.session es = some {
          fd := params.fd
          expEventBits := 0
          bucket := some .ofNoTime
          deadline := none }) := by
    unfold SessionCell.step SessionCell.ready Session.ready at hstep
    rw [ht, ha] at hstep
    obtain ⟨⟨p, lc⟩, hp, hstep⟩ := bind_eq_ok.mp hstep
    cases hstep
    obtain ⟨hop, hr | harmed⟩ := esqPtOfMco_arms hmco hfd hp
    · refine ⟨hop, Or.inl ?_⟩
      show p.session.r ≠ esqOk
      rw [hr.2]
      exact hr.1
    · refine ⟨hop, Or.inr ?_⟩
      show armingOf p.session p.effects = _
      rw [harmed]
      unfold Session.timingList
      dsimp only
      rw [hbits, hs, hms]
      rfl
  rcases SessionCell.act_cases h with ⟨hstep, -⟩ | ⟨e, ds, ds', hstep, hsw, -⟩
  · exact key hstep
  · rw [(key hstep).1] at hsw
    exact absurd hsw (by decide)

/-! ## coroutine の欄は 0 のままである -/

theorem esqPtOfSingleShotSocket_ne_mco {s : Session} {p : PtRun} {action : Action} {os : Int}
    (ht : s.sessionType = .socketCb) (h : esqPtOfSingleShotSocket s action os = .ok p) :
    p.session.sessionType ≠ .mco := by
  have stays {p : PtRun} (hp : p.session.sessionType = s.sessionType) :
      p.session.sessionType ≠ .mco := by
    rw [hp, ht]
    exact fun h => by cases h
  by_cases hinst : s.lc.Installing
  · exact stays (esqPtOfSingleShotSocket_pending_op hinst h).1
  have hremove (p : PtRun) : (SingleShot.removeFdThenActive p os).session.sessionType
      = p.session.sessionType := by
    unfold SingleShot.removeFdThenActive PtRun.changeToNoTimingList
    split
    · dsimp only
      split
      · rfl
      · split <;> rfl
    · rfl
  unfold esqPtOfSingleShotSocket at h
  rcases hl : s.lc with _ | l | l <;> rw [hl] at h hinst
  · cases h
    exact stays rfl
  case multi =>
    cases h
    exact stays rfl
  cases l with
  | initial => exact absurd (Or.inl rfl) hinst
  | waitForCpu => exact absurd (Or.inr (Or.inl rfl)) hinst
  | waitForReinstall => exact absurd (Or.inr (Or.inr rfl)) hinst
  | windedUp =>
    simp only [SingleShot.windedUp] at h
    split at h <;> cases h
    · exact stays rfl
    · exact stays (hremove _)
    · exact stays (hremove _)
  | waitForRemovedThenActive =>
    simp only [SingleShot.waitForRemovedThenActive] at h
    split at h <;> cases h <;> exact stays rfl
  | active =>
    simp only [SingleShot.active] at h
    split at h <;> cases h <;> exact stays rfl
  | executeCb =>
    simp only [SingleShot.executeCb] at h
    split at h <;> cases h
    · exact stays rfl
    · exact fun h => by cases h
    · exact stays rfl
    · exact stays rfl
    · exact stays rfl
    · exact stays rfl
    · exact fun h => by cases h
    · exact fun h => by cases h
  | die => cases h

theorem esqPtOfNoFd_ne_mco {s : Session} {p : PtRun} {action : Action}
    (ht : s.sessionType ≠ .mco) (h : esqPtOfNoFd s action = .ok p) :
    p.session.sessionType ≠ .mco := by
  unfold esqPtOfNoFd at h
  split at h <;> cases h
  · exact ht
  all_goals exact nofun

theorem SessionCell.Unset.step (hu : c.Unset) (h : c.step a = .ok (d, es)) : d.Unset := by
  cases SessionCell.step_cases h with
  | hashLock htype _ hp => exact fun hd => absurd hd (esqPtOfHashLock_spent htype hp).2.1
  | stuck => exact hu
  | mco htype hp =>
    obtain ⟨hkeeps, hlc⟩ := esqPtOfMco_keepsWait hp
    obtain ⟨-, hbits, hs, hms⟩ := hu htype
    exact fun _ => ⟨hlc, hkeeps.expEventBits.trans hbits, hkeeps.timeouts.trans hs,
      hkeeps.timeoutms.trans hms⟩
  | single htype hp => exact fun hd => absurd hd (esqPtOfSingleShotSocket_ne_mco htype hp)
  | multi htype hp =>
    exact fun hd => nomatch ((esqPtOfMultiShotSocket_spent hp).2.trans htype).symm.trans hd
  | noFd htype hp =>
    refine fun hd => absurd hd (esqPtOfNoFd_ne_mco ?_ hp)
    rcases htype with ht | ht <;> simp [ht]

theorem SessionCell.Unset.act (hu : c.Unset) (h : c.act a = .ok (d, es)) : d.Unset := by
  have hready : c.ready.Unset := hu
  rcases SessionCell.act_cases h with ⟨hstep, -⟩ | ⟨e, ds, ds', hstep, hsw, hre, -⟩
  · exact hready.step hstep
  · have htarget := (SessionCell.step_stepped (c := c.ready) rfl hstep).isTarget hsw
    obtain ⟨-, -, htype⟩ := SessionCell.restart_step htarget hre
    intro hd
    rw [htype] at hd
    rcases htarget with ht | ht | ht <;> exact nomatch ht.symm.trans hd

end

end Esq
