import Esq.Session.Membership

/-!
# fd の取り消しと completion の競争

`esq_os_events_remove_socket_fd` を呼んだ時点で、poll の completion がもう
completion queue に積まれていることがある。取り消しを待つ状態はその completion を
受け付けないので、worker がそれを先に配ると `INVALID_ACTION_TYPE` で終わる。

どの completion がまだ配られ得るかを `Watch` で表し、取り消しの時点で event を運ぶ completion が
積まれていなければ、以後の通知はどの順で配られても受け付けられることを示す。

配る順は問わない（`deliver i` は queue のどこからでも取る）。
-/

namespace Esq

open Infra

/-! ## completion を配る -/

def pollIn : Nat := 0x001
def pollOut : Nat := 0x004
def pollErr : Nat := 0x008
def pollHup : Nat := 0x010
def pollRdHup : Nat := 0x2000

def eventFlags (ioUringFlags : Nat) : Nat :=
  (if hasBit ioUringFlags pollErr then esqEventBitError else 0) |||
  (if hasBit ioUringFlags pollHup then esqEventBitFdClose else 0) |||
  (if hasBit ioUringFlags pollRdHup then esqEventBitFdClose else 0) |||
  (if hasBit ioUringFlags pollIn then esqEventBitRead else 0) |||
  (if hasBit ioUringFlags pollOut then esqEventBitWrite else 0)

inductive Notice where
  | removed
  | event (bits : Nat)
deriving DecidableEq, Repr

/-- `-ECANCELED` は取り消しの完了、それ以外の負の値と flag の無い値は読み捨てられる。 -/
def Cqe.notice (c : Cqe) : Option Notice :=
  if c.res = -ecanceled then some .removed
  else if c.res < 0 then none
  else if eventFlags c.res.toNat = 0 then none
  else some (.event (eventFlags c.res.toNat))

def Notice.action : Notice → Action
  | .removed => .notifyAioRemoved
  | .event bits => .notifyEvent bits

def esqWorkerReceiveFdEvent (w : Worker) (c : Cqe) : Except Fault Worker :=
  match c.notice with
  | none => .ok w
  | some notice => do
    let (_, w) ← esqSessionTakeAction w c.session notice.action esqOk
    .ok w

inductive RemovalOp where
  /-- `esq_session_new` -/
  | new (x : Nat)
  /-- worker と callback が渡す action -/
  | act (x : Nat) (action : Action)
  /-- new list から取る -/
  | pickUp (k : NewList)
  /-- poll が完了して queue に積まれる -/
  | complete (x : Nat) (res : Int)
  /-- queue の `i` 番目の completion を配る -/
  | deliver (i : Nat)
  /-- `esq_session_timing` が時間切れを配る -/
  | tick (x : Nat)
  /-- `esq_worker_notify_exit_to_all_sessions` が終了を配る -/
  | exit (x : Nat)
deriving DecidableEq, Repr

/-- 一つの操作。`esq_os_events_*` はいつも `ESQ_OK` を返す。 -/
def removalStep (w : Worker) : RemovalOp → Except Fault Worker
  | .new x => if (w.session x).magic then .ok w else .ok (w.setSession x esqSessionNew)
  | .act x action => do
    let (_, w) ← esqSessionTakeAction w x action esqOk
    .ok w
  | .pickUp k => esqWorkerPickUp w k esqOk
  | .complete x res => .ok (w.completePoll x res)
  | .deliver i =>
    match w.cq[i]? with
    | none => .ok w
    | some c => esqWorkerReceiveFdEvent { w with cq := w.cq.eraseIdx i } c
  | .tick x => do
    let (_, w) ← esqSessionTakeAction w x .notifyTimeout esqOk
    .ok w
  | .exit x => do
    let (_, w) ← esqSessionTakeAction w x .notifyExit esqOk
    .ok w

/-- worker と callback だけが渡す action。通知は `deliver` と `tick` と `exit` が配る。 -/
def Action.fromCallback : Action → Bool
  | .windUp => true
  | .windUpRr => true
  | .addSockFdMulti _ => true
  | .addSockFdSingle _ => true
  | .removeFd => true
  | .executeCb => true
  | .hashLockRead => true
  | .hashLockWrite => true
  | _ => false

/--
worker と kernel が起こし得る操作。

時間切れは時間の list にいる session に、終了は worker の list にいる session に配られ、
`-ECANCELED` は取り消しだけが積む。
-/
def RemovalLegal (w : Worker) : RemovalOp → Prop
  | .act _ action => action.fromCallback = true
  | .complete _ res => res ≠ -ecanceled
  | .tick x => ∃ l, WorkerList.timed l = true ∧ InList w l x
  | .exit x => ∃ l, InList w l x
  | _ => True

/-- `x` の event を運ぶ completion が queue に積まれていない。 -/
def NoEventQueued (w : Worker) (x : Nat) : Prop :=
  ∀ c ∈ w.cq, c.session = x → ∀ bits, c.notice ≠ some (.event bits)

/--
競争が害にならないための、操作の前の状態の条件。

poll の取り消しを出す操作では、event を運ぶ completion が queue に残っていない。
終了は、fd の取り消しと wind-up の両方を待つ multi shot の session には配られない。
-/
def RemovalSafe (w : Worker) : RemovalOp → Prop
  | .tick x => (w.session x).fd > 0 → NoEventQueued w x
  | .exit x => ((w.session x).lc = .single .windedUp → (w.session x).fd > 0 → NoEventQueued w x) ∧
      (w.session x).lc ≠ .multi .waitForRemovedAndWindUp
  | .act x .removeFd => (w.session x).fd > 0 → NoEventQueued w x
  | _ => True

/-! ## まだ配られ得る completion -/

inductive Watch where
  /-- poll は仕掛けられておらず、completion も残っていない -/
  | off
  /-- single shot の poll が一つ仕掛けられたか、完了して一つだけ積まれている -/
  | oneShot
  /-- multi shot の poll の event がいくつでも積まれ得る -/
  | stream
  /-- 取り消しの完了だけが積まれ得る -/
  | removing
deriving DecidableEq, Repr

def SingleShotLabel.watch (fd : Int) : SingleShotLabel → Watch
  | .windedUp => if fd > 0 then .oneShot else .off
  | .waitForRemovedThenActive => .removing
  | _ => .off

def MultiShotLabel.watch (fd : Int) : MultiShotLabel → Watch
  | .windedUp => if fd > 0 then .stream else .off
  | .active => if fd > 0 then .stream else .off
  | .executeCb => if fd > 0 then .stream else .off
  | .waitForRemovedAndWindUp => .removing
  | .waitForRemoved => .removing
  | _ => .off

def Session.watch (s : Session) : Watch :=
  if s.magic then
    match s.sessionType, s.lc with
    | .socketCb, .single l => l.watch s.fd
    | .multiSocketCb, .multi l => l.watch s.fd
    | _, _ => .off
  else .off

theorem Session.watch_single {s : Session} {l : SingleShotLabel} (hm : s.magic = true)
    (ht : s.sessionType = .socketCb) (hl : s.lc = .single l) : s.watch = l.watch s.fd := by
  simp [Session.watch, hm, ht, hl]

theorem Session.watch_multi {s : Session} {l : MultiShotLabel} (hm : s.magic = true)
    (ht : s.sessionType = .multiSocketCb) (hl : s.lc = .multi l) : s.watch = l.watch s.fd := by
  simp [Session.watch, hm, ht, hl]

/-- io_uring から見た一つの session。仕掛けた poll と、積まれている通知。 -/
structure Kern where
  poll : Poll
  notices : List Notice

def Watch.Ok : Watch → Kern → Prop
  | .off, k => k = ⟨.idle, []⟩
  | .oneShot, k => k = ⟨.singleShot, []⟩ ∨ k = ⟨.idle, []⟩ ∨ ∃ bits, k = ⟨.idle, [.event bits]⟩
  | .stream, k => k.poll ≠ .singleShot ∧ .removed ∉ k.notices
  | .removing, k => k = ⟨.idle, []⟩ ∨ k = ⟨.idle, [.removed]⟩

def Kern.exec (k : Kern) : Effect → Kern
  | .addSocketFd _ _ => { k with poll := .singleShot }
  | .addSocketFdMultishot _ _ => { k with poll := .multiShot }
  | .removeSocketFd =>
    match k.poll with
    | .idle => k
    | _ => { poll := .idle, notices := k.notices ++ [.removed] }
  | _ => k

def Kern.Eventless (k : Kern) : Prop := ∀ bits, Notice.event bits ∉ k.notices

/--
session `s` が action を受ける直前の `k` の条件。

completion の action では、配られる completion は `k` からもう取り除かれている。
-/
def Due (s : Session) (k : Kern) : Action → Prop
  | .notifyEvent _ => (s.watch = .oneShot ∧ k = ⟨.idle, []⟩) ∨ (s.watch = .stream ∧ Watch.stream.Ok k)
  | .notifyAioRemoved => s.watch = .removing ∧ k = ⟨.idle, []⟩
  | .notifyTimeout => s.watch.Ok k ∧
      (s.place = .anywhere ∨ ∃ l, WorkerList.timed l = true ∧ s.place = .list l) ∧
      (s.fd > 0 → k.Eventless)
  | .notifyExit => s.watch.Ok k ∧ (s.place = .anywhere ∨ ∃ l, s.place = .list l) ∧
      (s.lc = .single .windedUp → s.fd > 0 → k.Eventless) ∧
      s.lc ≠ .multi .waitForRemovedAndWindUp
  | .removeFd => s.watch.Ok k ∧ (s.fd > 0 → k.Eventless)
  | action => s.watch.Ok k ∧ (action.fromCallback = true ∨ action = .pickUp)

def Kern.execs (k : Kern) (es : List Effect) : Kern := es.foldl Kern.exec k

section

variable {s : Session} {k : Kern} {p : PtRun} {action : Action}

theorem Watch.off_ok : Watch.off.Ok k ↔ k = ⟨.idle, []⟩ := Iff.rfl

theorem Watch.removing_of_oneShot (h : Watch.oneShot.Ok k) (he : k.Eventless) :
    Watch.removing.Ok (k.exec .removeSocketFd) := by
  rcases h with rfl | rfl | ⟨bits, rfl⟩
  · exact Or.inr rfl
  · exact Or.inl rfl
  · exact absurd List.mem_cons_self (he bits)

theorem Watch.eq_oneShot_of_singleShot {v : Watch} (h : v.Ok k) (hp : k.poll = .singleShot) :
    v = .oneShot ∧ k = ⟨.singleShot, []⟩ := by
  cases v with
  | off =>
    rw [Watch.off_ok] at h
    rw [h] at hp
    cases hp
  | oneShot =>
    rcases h with h | h | ⟨bits, h⟩
    · exact ⟨rfl, h⟩
    · rw [h] at hp
      cases hp
    · rw [h] at hp
      cases hp
  | stream => exact absurd hp h.1
  | removing =>
    rcases h with h | h <;> rw [h] at hp <;> cases hp

theorem Watch.eq_stream_of_multiShot {v : Watch} (h : v.Ok k) (hp : k.poll = .multiShot) :
    v = .stream ∧ .removed ∉ k.notices := by
  cases v with
  | off =>
    rw [Watch.off_ok] at h
    rw [h] at hp
    cases hp
  | oneShot =>
    rcases h with h | h | ⟨bits, h⟩ <;> rw [h] at hp <;> cases hp
  | stream => exact ⟨rfl, h.2⟩
  | removing =>
    rcases h with h | h <;> rw [h] at hp <;> cases hp

theorem Watch.removing_of_stream (h : Watch.stream.Ok k) (he : k.Eventless) :
    Watch.removing.Ok (k.exec .removeSocketFd) := by
  obtain ⟨hpoll, hno⟩ := h
  have hnil : k.notices = [] := by
    refine List.eq_nil_iff_forall_not_mem.mpr fun a ha => ?_
    cases a with
    | removed => exact hno ha
    | event bits => exact he bits ha
  obtain ⟨poll, notices⟩ := k
  subst hnil
  cases poll with
  | idle => exact Or.inl rfl
  | singleShot => exact absurd rfl hpoll
  | multiShot => exact Or.inr rfl

/-- 一歩の後も見張り方と poll が合っていて、後始末を頼むなら poll は残っていない。 -/
structure Settled (k : Kern) (p : PtRun) : Prop where
  ok : p.session.postOp ≠ popSwitchSessionType → p.session.watch.Ok (k.execs p.effects)
  closed : p.session.postOp = popNoOp ∨ p.session.postOp = popReturnValue ∨
    k.execs p.effects = ⟨.idle, []⟩

theorem Settled.off (hw : p.session.watch = .off) (hk : k.execs p.effects = ⟨.idle, []⟩) :
    Settled k p := ⟨fun _ => by rw [hw]; exact hk, Or.inr (Or.inr hk)⟩

theorem Settled.switch (hop : p.session.postOp = popSwitchSessionType)
    (hk : k.execs p.effects = ⟨.idle, []⟩) : Settled k p :=
  ⟨fun h => absurd hop h, Or.inr (Or.inr hk)⟩

theorem Settled.stay {v : Watch} (hw : p.session.watch = v) (hk : v.Ok (k.execs p.effects))
    (hop : p.session.postOp = popNoOp ∨ p.session.postOp = popReturnValue) : Settled k p := by
  refine ⟨fun _ => by rw [hw]; exact hk, ?_⟩
  rcases hop with hop | hop
  · exact Or.inl hop
  · exact Or.inr (Or.inl hop)

theorem Settled.single_off {l : SingleShotLabel} (hm : p.session.magic = true)
    (ht : p.session.sessionType = .socketCb) (hl : p.session.lc = .single l)
    (hw : l.watch p.session.fd = .off) (hk : k.execs p.effects = ⟨.idle, []⟩) : Settled k p :=
  .off ((Session.watch_single hm ht hl).trans hw) hk

theorem Settled.multi_off {l : MultiShotLabel} (hm : p.session.magic = true)
    (ht : p.session.sessionType = .multiSocketCb) (hl : p.session.lc = .multi l)
    (hw : l.watch p.session.fd = .off) (hk : k.execs p.effects = ⟨.idle, []⟩) : Settled k p :=
  .off ((Session.watch_multi hm ht hl).trans hw) hk

theorem Settled.multi_stay {l : MultiShotLabel} (hm : p.session.magic = true)
    (ht : p.session.sessionType = .multiSocketCb) (hl : p.session.lc = .multi l)
    (hk : (l.watch p.session.fd).Ok (k.execs p.effects))
    (hop : p.session.postOp = popNoOp ∨ p.session.postOp = popReturnValue) : Settled k p :=
  .stay (Session.watch_multi hm ht hl) hk hop

theorem Settled.closed_of_ends (h : Settled k p)
    (hop : p.session.postOp = popSwitchSessionType ∨ p.session.postOp = popFreeSession ∨
      p.session.postOp = 5) : k.execs p.effects = ⟨.idle, []⟩ := by
  rcases h.closed with he | he | he
  · rw [he] at hop
    simp [popNoOp, popSwitchSessionType, popFreeSession] at hop
  · rw [he] at hop
    simp [popReturnValue, popSwitchSessionType, popFreeSession] at hop
  · exact he

theorem SingleShotLabel.watch_ne_stream (l : SingleShotLabel) (fd : Int) :
    l.watch fd ≠ .stream := by
  by_cases hfd : 0 < fd <;> cases l <;> simp [SingleShotLabel.watch, hfd]

theorem MultiShotLabel.watch_ne_oneShot (l : MultiShotLabel) (fd : Int) :
    l.watch fd ≠ .oneShot := by
  by_cases hfd : 0 < fd <;> cases l <;> simp [MultiShotLabel.watch, hfd]

theorem SingleShotLabel.watch_eq_removing {l : SingleShotLabel} {fd : Int} :
    l.watch fd = .removing ↔ l = .waitForRemovedThenActive := by
  by_cases hfd : 0 < fd <;> cases l <;> simp [SingleShotLabel.watch, hfd]

theorem MultiShotLabel.watch_eq_removing {l : MultiShotLabel} {fd : Int} :
    l.watch fd = .removing ↔ l = .waitForRemovedAndWindUp ∨ l = .waitForRemoved := by
  by_cases hfd : 0 < fd <;> cases l <;> simp [MultiShotLabel.watch, hfd]

theorem Due.watch_ok (h : Due s k action) (hw : s.watch ≠ .oneShot)
    (hr : action ≠ .notifyAioRemoved) : s.watch.Ok k := by
  cases action with
  | notifyEvent bits =>
    rcases h with ⟨h1, -⟩ | ⟨h1, h2⟩
    · exact absurd h1 hw
    · rw [h1]
      exact h2
  | notifyAioRemoved => exact absurd rfl hr
  | _ => exact h.1

theorem Due.off (h : Due s k action) (hw : s.watch = .off) : k = ⟨.idle, []⟩ := by
  by_cases hr : action = .notifyAioRemoved
  · subst hr
    exact h.2
  · have := h.watch_ok (by simp [hw]) hr
    rw [hw] at this
    exact this

theorem Due.setParent_false {q cb : Nat} (h : Due s k (.setParent q cb)) : False := by
  rcases h.2 with h | h <;> cases h

theorem Due.addChild_false {c : Nat} (h : Due s k (.addChild c)) : False := by
  rcases h.2 with h | h <;> cases h

theorem SingleShot.installFd_settled (hm : s.magic = true) (ht : s.sessionType = .socketCb)
    (hk : k = ⟨.idle, []⟩) : Settled k (SingleShot.installFd { session := s } 0) := by
  unfold SingleShot.installFd
  subst hk
  split
  · next hfd =>
    rw [if_neg (by decide)]
    refine .stay (v := .oneShot) ?_ (Or.inl rfl) (Or.inl rfl)
    simpa [Session.watch, SingleShotLabel.watch, hm, ht, fdNeedInstall] using hfd
  · next hfd =>
    refine .off ?_ rfl
    simpa [Session.watch, SingleShotLabel.watch, hm, ht, fdNeedInstall] using hfd

theorem changeToNoTimingList_kern (p : PtRun) (k : Kern) :
    k.execs p.changeToNoTimingList.effects = k.execs p.effects := by
  unfold PtRun.changeToNoTimingList
  split
  · simp [Kern.execs, Kern.exec]
  · rfl

theorem SingleShot.removeFdThenActive_settled {p : PtRun} (hm : p.session.magic = true)
    (ht : p.session.sessionType = .socketCb) (hp : p.session.postOp = popNoOp)
    (he : p.effects = []) (hpos : p.session.fd > 0 → Watch.oneShot.Ok k ∧ k.Eventless)
    (hneg : ¬ p.session.fd > 0 → k = ⟨.idle, []⟩) :
    Settled k (SingleShot.removeFdThenActive p 0) := by
  unfold SingleShot.removeFdThenActive
  split
  · next hfd =>
    obtain ⟨hok, hev⟩ := hpos hfd
    simp only
    rw [if_neg (by decide)]
    generalize hp' : (p.set fun s => { s with fd := 0 }).emit .removeSocketFd = p'
    obtain ⟨hm', ht', hop'⟩ := changeToNoTimingList_session p'
    refine .stay (v := .removing) ?_ ?_ ?_
    · have h1 : p'.changeToNoTimingList.session.magic = true := by rw [hm', ← hp']; exact hm
      have h2 : p'.changeToNoTimingList.session.sessionType = .socketCb := by
        rw [ht', ← hp']; exact ht
      simp [Session.watch, SingleShotLabel.watch, h1, h2]
    · show Watch.removing.Ok (k.execs p'.changeToNoTimingList.effects)
      rw [changeToNoTimingList_kern, ← hp']
      simpa [he, Kern.execs] using Watch.removing_of_oneShot hok hev
    · refine Or.inl (hop'.trans ?_)
      rw [← hp']
      exact hp
  · next hfd =>
    refine .off ?_ ?_
    · simp [Session.watch, SingleShotLabel.watch, hm, ht]
    · rw [hneg hfd]
      simp [he, Kern.execs, Kern.exec]

/-- **single shot の一歩は、見張り方と poll を合わせたまま進む。** -/
theorem esqPtOfSingleShotSocket_settled {l : SingleShotLabel} (hm : s.magic = true)
    (ht : s.sessionType = .socketCb) (hl : s.lc = .single l) (hdue : Due s k action)
    (h : esqPtOfSingleShotSocket s action 0 = .ok p) : Settled k p := by
  have hwatch := Session.watch_single hm ht hl
  unfold esqPtOfSingleShotSocket at h
  rw [hl] at h
  cases l with
  | initial =>
    have hk := hdue.off hwatch
    subst hk
    simp only [SingleShot.initial] at h
    split at h
    · cases h
      exact .single_off hm ht rfl rfl rfl
    · cases h
      exact .single_off hm ht rfl rfl rfl
    · exact hdue.setParent_false.elim
    · cases h
  | waitForCpu =>
    have hk := hdue.off hwatch
    simp only [SingleShot.waitForCpu] at h
    split at h
    · cases h
      exact SingleShot.installFd_settled hm ht hk
    · cases h
  | windedUp =>
    simp only [SingleShot.windedUp] at h
    split at h
    · cases h
      refine .single_off hm ht rfl rfl ?_
      rcases hdue with ⟨-, rfl⟩ | ⟨hw, -⟩
      · rfl
      · exact absurd (hwatch.symm.trans hw) (SingleShotLabel.watch_ne_stream _ _)
    · cases h
      refine SingleShot.removeFdThenActive_settled hm ht rfl rfl (fun hfd => ?_) fun hfd => ?_
      · refine ⟨?_, hdue.2.2 hfd⟩
        have := hdue.1
        rw [hwatch] at this
        simpa only [SingleShotLabel.watch, if_pos (show s.fd > 0 from hfd)] using this
      · exact hdue.off (hwatch.trans (if_neg hfd))
    · cases h
      refine SingleShot.removeFdThenActive_settled hm ht rfl rfl (fun hfd => ?_) fun hfd => ?_
      · refine ⟨?_, hdue.2.2.1 hl hfd⟩
        have := hdue.1
        rw [hwatch] at this
        simpa only [SingleShotLabel.watch, if_pos (show s.fd > 0 from hfd)] using this
      · exact hdue.off (hwatch.trans (if_neg hfd))
    · cases h
  | waitForRemovedThenActive =>
    simp only [SingleShot.waitForRemovedThenActive] at h
    split at h
    · cases h
      obtain ⟨-, rfl⟩ := hdue
      exact .single_off hm ht rfl rfl rfl
    · cases h
      have hok := hdue.1
      rw [hwatch] at hok
      exact .stay (Session.watch_single hm ht rfl) hok (Or.inl rfl)
    · cases h
  | active =>
    have hk := hdue.off hwatch
    subst hk
    simp only [SingleShot.active] at h
    split at h
    · cases h
      exact .single_off hm ht hl rfl rfl
    · cases h
      exact .single_off hm ht rfl rfl rfl
    · cases h
      exact .single_off hm ht rfl rfl rfl
    · cases h
  | executeCb =>
    have hk := hdue.off hwatch
    subst hk
    simp only [SingleShot.executeCb] at h
    split at h
    · cases h
      exact .single_off hm ht rfl rfl rfl
    · cases h
      exact .switch rfl rfl
    · exact hdue.addChild_false.elim
    · cases h
      exact .single_off hm ht rfl rfl rfl
    · cases h
      exact .single_off hm ht rfl rfl rfl
    · cases h
      exact .single_off hm ht rfl rfl rfl
    · cases h
      exact .off (by simp [Session.watch, hm]) rfl
    · cases h
      exact .off (by simp [Session.watch, hm]) rfl
    · cases h
  | waitForReinstall =>
    have hk := hdue.off hwatch
    simp only [SingleShot.waitForReinstall] at h
    split at h
    · cases h
      exact SingleShot.installFd_settled hm ht hk
    · cases h
      exact .single_off hm ht rfl rfl hk
    · cases h
      exact .single_off hm ht rfl rfl hk
    · cases h
  | die => cases h

theorem MultiShot.installFd_settled (hm : s.magic = true) (ht : s.sessionType = .multiSocketCb)
    (hk : k = ⟨.idle, []⟩) : Settled k (MultiShot.installFd { session := s } 0) := by
  unfold MultiShot.installFd
  subst hk
  split
  · next hfd =>
    rw [if_neg (by decide)]
    refine .stay (v := .stream) ?_ ⟨by simp [Kern.execs, Kern.exec], by
      simp [Kern.execs, Kern.exec]⟩ (Or.inl rfl)
    simpa [Session.watch, MultiShotLabel.watch, hm, ht, fdNeedInstall] using hfd
  · next hfd =>
    refine .off ?_ rfl
    simpa [Session.watch, MultiShotLabel.watch, hm, ht, fdNeedInstall] using hfd

/-- **multi shot の一歩も、見張り方と poll を合わせたまま進む。** -/
theorem esqPtOfMultiShotSocket_settled {l : MultiShotLabel} (hm : s.magic = true)
    (ht : s.sessionType = .multiSocketCb) (hl : s.lc = .multi l) (hp : s.postOp = popNoOp)
    (hdue : Due s k action) (h : esqPtOfMultiShotSocket s action 0 = .ok p) : Settled k p := by
  have hwatch := Session.watch_multi hm ht hl
  have hok : action ≠ .notifyAioRemoved → (l.watch s.fd).Ok k := by
    intro hr
    rw [← hwatch]
    exact hdue.watch_ok (by rw [hwatch]; exact MultiShotLabel.watch_ne_oneShot _ _) hr
  unfold esqPtOfMultiShotSocket at h
  rw [hl] at h
  cases l with
  | initial =>
    have hk := hdue.off hwatch
    simp only [MultiShot.initial] at h
    split at h
    · cases h
      exact .multi_off hm ht rfl rfl hk
    · cases h
      exact .multi_off hm ht rfl rfl hk
    · cases h
  | waitForCpu =>
    simp only [MultiShot.waitForCpu] at h
    split at h
    · cases h
      exact MultiShot.installFd_settled hm ht (hdue.off hwatch)
    · cases h
  | windedUp =>
    simp only [MultiShot.windedUp] at h
    split at h
    · cases h
      exact .multi_stay hm ht rfl (hok (by simp)) (Or.inl rfl)
    · cases h
      exact .multi_stay hm ht rfl (hok (by simp)) (Or.inl hp)
    · cases h
  | active =>
    simp only [MultiShot.active] at h
    split at h
    · cases h
      exact .multi_stay hm ht rfl (hok (by simp)) (Or.inl rfl)
    · cases h
      exact .multi_stay hm ht rfl (hok (by simp)) (Or.inl rfl)
    · cases h
      exact .multi_stay hm ht rfl (hok (by simp)) (Or.inr rfl)
    · cases h
  | executeCb =>
    simp only [MultiShot.executeCb] at h
    split at h
    · have hok := hok (by simp)
      split at h
      · split at h
        · cases h
          exact .multi_stay hm ht rfl hok (Or.inl hp)
        · cases h
          exact .multi_stay hm ht rfl hok (Or.inl rfl)
      · next hfd =>
        rw [not_ne_iff] at hfd
        cases h
        refine .off (by simp [Session.watch, MultiShotLabel.watch, hm, ht, hl, hfd]) ?_
        rw [MultiShotLabel.watch, if_neg (by omega)] at hok
        exact hok
    · have hok := hok (by simp)
      split at h
      · next hfd =>
        rw [if_neg (by decide)] at h
        cases h
        refine .multi_stay hm ht rfl ?_ (Or.inl hp)
        rw [MultiShotLabel.watch, if_pos (show s.fd > 0 from hfd)] at hok
        simpa [MultiShotLabel.watch, Kern.execs, Kern.exec] using Watch.removing_of_stream hok (hdue.2 hfd)
      · next hfd =>
        cases h
        refine .multi_off hm ht rfl rfl ?_
        rw [MultiShotLabel.watch, if_neg (show ¬ s.fd > 0 from hfd)] at hok
        exact hok
    · cases h
      exact .multi_stay hm ht rfl (hok (by simp)) (Or.inl rfl)
    · cases h
      exact .multi_stay hm ht rfl (hok (by simp)) (Or.inl rfl)
    · cases h
  | waitForRemovedAndWindUp =>
    simp only [MultiShot.waitForRemovedAndWindUp] at h
    split at h
    · cases h
      exact .multi_off hm ht rfl rfl hdue.2
    · cases h
      exact .multi_stay hm ht rfl (hok (by simp)) (Or.inl rfl)
    · cases h
  | waitForRemoved =>
    simp only [MultiShot.waitForRemoved] at h
    split at h
    · cases h
      refine .multi_off hm ht rfl rfl ?_
      rw [hdue.2]
      rfl
    · cases h
      exact .multi_stay hm ht rfl (hok (by simp)) (Or.inl rfl)
    · cases h
  | waitForWindUp =>
    have hk := hdue.off hwatch
    subst hk
    simp only [MultiShot.waitForWindUp] at h
    split at h
    · cases h
      exact .multi_off hm ht rfl rfl rfl
    · cases h
      exact .multi_off hm ht rfl rfl rfl
    · cases h
  | die => cases h

theorem esqPtOfNoFd_settled (ht : s.sessionType = .new ∨ s.sessionType = .noFd)
    (hdue : Due s k action) (h : esqPtOfNoFd s action = .ok p) : Settled k p := by
  have hk : k = ⟨.idle, []⟩ := by
    refine hdue.off ?_
    rcases ht with ht | ht <;> simp [Session.watch, ht]
  simp only [esqPtOfNoFd] at h
  split at h
  · cases h
    refine .off ?_ hk
    rcases ht with ht | ht <;> simp [Session.watch, ht]
  all_goals first
    | cases h
      exact .switch rfl hk
    | cases h

/-- **どの状態機械の一歩も、見張り方と poll を合わせたまま進む。** -/
theorem Session.step_settled (hm : s.magic = true) (hwf : s.WF) (hp : s.postOp = popNoOp)
    (hdue : Due s k action) (h : s.step action 0 = .ok p) : Settled k p := by
  unfold Session.step at h
  cases ht : s.sessionType with
  | new =>
    rw [ht] at h
    exact esqPtOfNoFd_settled (Or.inl ht) hdue h
  | noFd =>
    rw [ht] at h
    exact esqPtOfNoFd_settled (Or.inr ht) hdue h
  | socketCb =>
    rw [ht] at h
    obtain ⟨l, hl⟩ := hwf.single ht
    exact esqPtOfSingleShotSocket_settled hm ht hl hdue h
  | multiSocketCb =>
    rw [ht] at h
    obtain ⟨⟨l, hl⟩, -⟩ := hwf.multi ht
    exact esqPtOfMultiShotSocket_settled hm ht hl hp hdue h
  | mco =>
    rw [ht] at h
    cases h
    have hw : s.watch = .off := by simp [Session.watch, ht]
    exact .off hw (hdue.off hw)
  | waitForHashLock =>
    rw [ht] at h
    cases h
    have hw : s.watch = .off := by simp [Session.watch, ht]
    exact .off hw (hdue.off hw)

theorem Session.step_start_watch (hl : s.lc = .start)
    (ht : s.sessionType = .socketCb ∨ s.sessionType = .multiSocketCb ∨
      s.sessionType = .waitForHashLock)
    (h : s.step action 0 = .ok p) : p.session.watch = .off := by
  unfold Session.step at h
  rcases ht with ht | ht | ht
  · simp only [ht, esqPtOfSingleShotSocket, hl] at h
    cases h
    simp [SingleShot.start, SingleShot.setParams, Session.watch, SingleShotLabel.watch, ht]
  · simp only [ht, esqPtOfMultiShotSocket, hl] at h
    cases h
    simp [MultiShot.start, Session.watch, MultiShotLabel.watch, ht]
  · simp only [ht] at h
    cases h
    simp [Session.watch, ht]

def Action.isNotice : Action → Bool
  | .notifyEvent _ => true
  | .notifyAioRemoved => true
  | .notifyTimeout => true
  | .notifyExit => true
  | _ => false

theorem SingleShot.step_accepts {l : SingleShotLabel} (hm : s.magic = true)
    (ht : s.sessionType = .socketCb) (hl : s.lc = .single l) (hn : action.isNotice = true)
    (hdue : Due s k action) : ∃ p, esqPtOfSingleShotSocket s action 0 = .ok p := by
  have hw : s.watch = l.watch s.fd := by simp [Session.watch, hm, ht, hl]
  have hplace := Session.place_single hm ht hl
  simp only [esqPtOfSingleShotSocket, hl]
  cases action with
  | notifyEvent bits =>
    cases l with
    | windedUp => exact ⟨_, rfl⟩
    | active => exact ⟨_, rfl⟩
    | executeCb => exact ⟨_, rfl⟩
    | waitForReinstall => exact ⟨_, rfl⟩
    | _ => simp [Due, hw, SingleShotLabel.watch] at hdue
  | notifyAioRemoved =>
    obtain rfl := SingleShotLabel.watch_eq_removing.mp (hw.symm.trans hdue.1)
    exact ⟨_, rfl⟩
  | notifyTimeout =>
    cases l with
    | windedUp => exact ⟨_, rfl⟩
    | _ => simp [Due, hplace, Lc.place, WorkerList.timed] at hdue
  | notifyExit =>
    cases l with
    | windedUp => exact ⟨_, rfl⟩
    | waitForRemovedThenActive => exact ⟨_, rfl⟩
    | active => exact ⟨_, rfl⟩
    | executeCb => exact ⟨_, rfl⟩
    | waitForReinstall => exact ⟨_, rfl⟩
    | _ => simp [Due, hplace, Lc.place] at hdue
  | _ => cases hn

theorem MultiShot.step_accepts {l : MultiShotLabel} (hm : s.magic = true)
    (ht : s.sessionType = .multiSocketCb) (hl : s.lc = .multi l) (hs : s.timeouts = 0)
    (hms : s.timeoutms = 0) (hn : action.isNotice = true) (hdue : Due s k action) :
    ∃ p, esqPtOfMultiShotSocket s action 0 = .ok p := by
  have hw : s.watch = l.watch s.fd := by simp [Session.watch, hm, ht, hl]
  have hplace := Session.place_multi hm ht hl
  simp only [esqPtOfMultiShotSocket, hl]
  cases action with
  | notifyEvent bits =>
    cases l with
    | windedUp => exact ⟨_, rfl⟩
    | active => exact ⟨_, rfl⟩
    | executeCb => exact ⟨_, rfl⟩
    | _ => simp [Due, hw, MultiShotLabel.watch] at hdue
  | notifyAioRemoved =>
    rcases MultiShotLabel.watch_eq_removing.mp (hw.symm.trans hdue.1) with rfl | rfl
    · exact ⟨_, rfl⟩
    · exact ⟨_, rfl⟩
  | notifyTimeout =>
    -- multi shot の timeout の欄は 0 なので、時間の list にはいない
    cases l <;> simp [Due, hplace, hs, hms, Lc.place, timingList_zero, WorkerList.timed] at hdue
  | notifyExit =>
    cases l with
    | windedUp => exact ⟨_, rfl⟩
    | active => exact ⟨_, rfl⟩
    | executeCb => exact ⟨_, rfl⟩
    | waitForRemoved => exact ⟨_, rfl⟩
    | waitForWindUp => exact ⟨_, rfl⟩
    | waitForRemovedAndWindUp => exact absurd hl hdue.2.2.2
    | _ => simp [Due, hplace, Lc.place] at hdue
  | _ => cases hn

/-- **条件の下で配られた通知は、どの label でも受け付けられる。** -/
theorem Session.step_accepts (hm : s.magic = true) (hwf : s.WF) (hn : action.isNotice = true)
    (hdue : Due s k action) : ∃ p, s.step action 0 = .ok p := by
  unfold Session.step
  cases ht : s.sessionType with
  | socketCb =>
    obtain ⟨l, hl⟩ := hwf.single ht
    exact SingleShot.step_accepts hm ht hl hn hdue
  | multiSocketCb =>
    obtain ⟨⟨l, hl⟩, hs, hms⟩ := hwf.multi ht
    exact MultiShot.step_accepts hm ht hl hs hms hn hdue
  | mco => exact ⟨_, rfl⟩
  | waitForHashLock => exact ⟨_, rfl⟩
  | _ =>
    -- まだ型の決まっていない session はどの list にもいず、poll も持たない
    have hw : s.watch = .off := by simp [Session.watch, ht]
    have hplace : s.place = .nowhere := by simp [Session.place, ht]
    cases action with
    | notifyEvent bits => simp [Due, hw] at hdue
    | notifyAioRemoved => simp [Due, hw] at hdue
    | notifyTimeout => simp [Due, hplace] at hdue
    | notifyExit => simp [Due, hplace] at hdue
    | _ => cases hn

end

/-! ## worker の一歩 -/

def Worker.kern (w : Worker) (x : Nat) : Kern where
  poll := w.poll x
  notices := (w.cq.filter fun c => c.session = x).filterMap Cqe.notice

/-- 親も子も無い session。この module の操作は親子を結ばない。 -/
def Session.Lone (s : Session) : Prop :=
  s.haveParentSession = false ∧ s.childSessionList = [] ∧ s.finishedChildSessionList = []

/-- `x` の他の session と poll は変わらず、`x` の見張り方と poll は合っている。 -/
structure Tracked (w w' : Worker) (x : Nat) : Prop where
  others : ∀ y, y ≠ x → w'.session y = w.session y ∧ w'.kern y = w.kern y
  watch : (w'.session x).watch.Ok (w'.kern x)
  lone : (w'.session x).Lone

section

variable {w w' : Worker} {x y : Nat} {action : Action}

theorem Session.Lone.sameKin {s t : Session} (h : s.Lone) (hk : SameKin s t) : t.Lone :=
  ⟨hk.have_parent.trans h.1, hk.children.trans h.2.1, hk.finished.trans h.2.2⟩

theorem kern_push (w : Worker) (c : Cqe) (f : Nat → Poll) (y : Nat) :
    ({ w with poll := f, cq := w.cq ++ [c] } : Worker).kern y
      = ⟨f y, (w.kern y).notices ++ if c.session = y then c.notice.toList else []⟩ := by
  unfold Worker.kern
  simp only [List.filter_append, List.filterMap_append]
  by_cases hc : c.session = y
  · cases hn : c.notice <;> simp [hc, hn]
  · simp [hc]

theorem notice_canceled (x : Nat) : Cqe.notice ⟨x, -ecanceled⟩ = some .removed := by
  simp [Cqe.notice]

theorem kern_execEffect_self (w : Worker) (e : Effect) :
    (w.execEffect x e).kern x = (w.kern x).exec e := by
  cases e with
  | addSocketFd fd bits => simp [Worker.execEffect, Worker.kern, Kern.exec]
  | addSocketFdMultishot fd bits => simp [Worker.execEffect, Worker.kern, Kern.exec]
  | removeSocketFd =>
    unfold Worker.execEffect Kern.exec
    have hpoll : (w.kern x).poll = w.poll x := rfl
    rw [hpoll]
    cases w.poll x with
    | idle => rfl
    | singleShot => simp only [kern_push, notice_canceled]; simp
    | multiShot => simp only [kern_push, notice_canceled]; simp
  | _ => rfl

theorem kern_execEffect_of_ne (w : Worker) (e : Effect) (hy : y ≠ x) :
    (w.execEffect x e).kern y = w.kern y := by
  cases e with
  | addSocketFd fd bits => simp [Worker.execEffect, Worker.kern, hy]
  | addSocketFdMultishot fd bits => simp [Worker.execEffect, Worker.kern, hy]
  | removeSocketFd =>
    have hxy : ¬ x = y := fun h => hy h.symm
    unfold Worker.execEffect
    cases w.poll x with
    | idle => rfl
    | singleShot => simp only [kern_push]; simp [hxy, hy, Worker.kern]
    | multiShot => simp only [kern_push]; simp [hxy, hy, Worker.kern]
  | _ => rfl

theorem kern_execEffects_self : ∀ (es : List Effect) (w : Worker),
    (w.execEffects x es).kern x = (w.kern x).execs es
  | [], _ => rfl
  | e :: es, w => by
    refine (kern_execEffects_self es (w.execEffect x e)).trans ?_
    rw [kern_execEffect_self]
    rfl

theorem kern_execEffects_of_ne (hy : y ≠ x) : ∀ (es : List Effect) (w : Worker),
    (w.execEffects x es).kern y = w.kern y
  | [], _ => rfl
  | e :: es, w =>
    (kern_execEffects_of_ne hy es (w.execEffect x e)).trans (kern_execEffect_of_ne w e hy)

theorem kern_joinNewList (w : Worker) (k : NewList) (x y : Nat) :
    (w.joinNewList k x).kern y = w.kern y := by
  unfold Worker.joinNewList
  split <;> rfl

theorem freeSession_lone (hl : (w.session x).Lone) :
    w.freeSession x 0 = .ok (w.setSession x { w.session x with magic := false }) := by
  obtain ⟨hp, hc, hf⟩ := hl
  have hunhook : esqUnhookChildSession w x = w := by
    have hsame : { w.session x with childSessionList := [], finishedChildSessionList := [] }
        = w.session x := by
      cases hs : w.session x
      simp_all
    unfold esqUnhookChildSession
    simp only [hc, hf, List.foldl_nil, hsame]
    simp [Worker.setSession]
  unfold Worker.freeSession
  simp only [hunhook, hp]
  rfl

/-- **action を渡しても、見張り方と poll は合ったままである。** -/
theorem takeAction_tracked {r : Int} (hm : (w.session x).magic = true)
    (hwf : (w.session x).WF) (hlone : (w.session x).Lone)
    (hdue : Due (w.session x) (w.kern x) action)
    (ht : esqSessionTakeAction w x action 0 = .ok (r, w')) : Tracked w w' x := by
  obtain ⟨p, hp, hsame, htaken⟩ := esqSessionTakeAction_taken hm hwf
    (by rintro q cb rfl; exact hdue.setParent_false) (by rintro c rfl; exact hdue.addChild_false) ht
  have hset := Session.step_settled (s := (w.session x).ready) hm
    ⟨hwf.new, hwf.single, hwf.multi, hwf.removed⟩ rfl hdue hp
  have hsess : ((w.setSession x p.session).execEffects x p.effects).session
      = Function.update w.session x p.session := execEffects_session _ _
  have hkern : ((w.setSession x p.session).execEffects x p.effects).kern x
      = (w.kern x).execs p.effects := kern_execEffects_self _ _
  have hothers : ∀ y, y ≠ x →
      ((w.setSession x p.session).execEffects x p.effects).session y = w.session y ∧
        ((w.setSession x p.session).execEffects x p.effects).kern y = w.kern y := by
    intro y hy
    refine ⟨by rw [hsess, Function.update_of_ne hy], ?_⟩
    exact kern_execEffects_of_ne hy _ _
  have hnew : ((w.setSession x p.session).execEffects x p.effects).session x = p.session := by
    rw [hsess, Function.update_self]
  have hlone1 : (((w.setSession x p.session).execEffects x p.effects).session x).Lone := by
    rw [hnew]
    exact hlone.sameKin hsame
  cases htaken with
  | @switch p2 hop heff hbefore htype hp2 =>
    obtain ⟨-, -, -, hsame2, -⟩ :=
      Session.step_start (s := ({ p.session with lc := .start } : Session).ready)
        (hsame.magic.trans hm) rfl rfl htype hp2
    have hoff := Session.step_start_watch
      (s := ({ p.session with lc := .start } : Session).ready) rfl htype hp2
    have hself := Worker.setSession_self w x p2.session
    refine ⟨fun y hy => ⟨Function.update_of_ne hy _ _, rfl⟩, ?_, ?_⟩
    · rw [hself, hoff]
      show w.kern x = _
      have hclosed := hset.closed_of_ends (Or.inl hop)
      rw [heff] at hclosed
      exact hclosed
    · rw [hself]
      exact hlone.sameKin (hsame.trans ((sameKin_restart _).trans hsame2))
  | joinNew k hop heff hbefore hwf' hplace =>
    have hsessJ := joinNewList_session ((w.setSession x p.session).execEffects x p.effects) k x
    refine ⟨fun y hy => ?_, ?_, ?_⟩
    · rw [hsessJ, kern_joinNewList]
      exact hothers y hy
    · rw [hsessJ, kern_joinNewList, hnew, hkern]
      exact hset.ok (by rw [hop]; cases k <;> decide)
    · rw [hsessJ]
      exact hlone1
  | free hop hwf' hq hplace hret hfree =>
    rw [freeSession_lone hlone1, hnew] at hfree
    cases hfree
    have hx := Worker.setSession_self ((w.setSession x p.session).execEffects x p.effects) x
      { p.session with magic := false }
    refine ⟨fun y hy => ⟨?_, (hothers y hy).2⟩, ?_, ?_⟩
    · exact (Function.update_of_ne hy _ _).trans (hothers y hy).1
    · rw [hx]
      show ((w.setSession x p.session).execEffects x p.effects).kern x = _
      rw [hkern]
      exact hset.closed_of_ends (Or.inr hop)
    · rw [hx]
      show p.session.Lone
      exact hlone.sameKin hsame
  | stay hop hwf' q hq hplace =>
    refine ⟨hothers, ?_, hlone1⟩
    rw [hnew, hkern]
    refine hset.ok ?_
    rcases hop with hop | hop <;> rw [hop] <;> decide

theorem postActions_lone (hl : (w.session x).Lone) : ∃ r w', w.postActions x 0 = .ok (r, w') := by
  unfold Worker.postActions
  simp only [freeSession_lone hl, ok_bind]
  split
  · exact ⟨_, _, rfl⟩
  · split
    · exact ⟨_, _, rfl⟩
    · split
      · exact ⟨_, _, rfl⟩
      · split <;> exact ⟨_, _, rfl⟩

theorem Session.step_start_ok {s : Session} (hl : s.lc = .start)
    (ht : s.sessionType = .socketCb ∨ s.sessionType = .multiSocketCb ∨
      s.sessionType = .waitForHashLock) : ∃ p, s.step action 0 = .ok p := by
  unfold Session.step
  rcases ht with ht | ht | ht
  · simp only [ht, esqPtOfSingleShotSocket, hl]
    exact ⟨_, rfl⟩
  · simp only [ht, esqPtOfMultiShotSocket, hl]
    exact ⟨_, rfl⟩
  · simp only [ht]
    exact ⟨_, rfl⟩

/-- **条件の下で配られた通知は、最後まで処理される。** -/
theorem takeAction_accepts (hwf : (w.session x).WF) (hlone : (w.session x).Lone)
    (hn : action.isNotice = true)
    (hdue : (w.session x).magic = true → Due (w.session x) (w.kern x) action) :
    ∃ r w', esqSessionTakeAction w x action 0 = .ok (r, w') := by
  by_cases hm : (w.session x).magic = true
  · have hdue := hdue hm
    have hwf0 : (w.session x).ready.WF := ⟨hwf.new, hwf.single, hwf.multi, hwf.removed⟩
    obtain ⟨p, hp⟩ := Session.step_accepts (s := (w.session x).ready) hm hwf0 hn hdue
    have hd : w.dispatch x action 0
        = .ok ((w.setSession x p.session).execEffects x p.effects) := by
      rw [Worker.dispatch, hp]
      rfl
    have hsame := Session.step_sameKin hp
      (by rintro q cb rfl; cases hn) (by rintro c rfl; cases hn)
    have hlone1 : p.session.Lone := Session.Lone.sameKin (s := (w.session x).ready) hlone hsame
    have hnew : ((w.setSession x p.session).execEffects x p.effects).session x = p.session := by
      rw [execEffects_session]
      exact Function.update_self ..
    rw [esqSessionTakeAction, if_pos hm, hd, ok_bind, hnew]
    split
    · next hsw =>
      cases Session.step_outcome (s := (w.session x).ready) hm hwf0 rfl hp with
      | switch hop heff hbefore htype =>
        obtain ⟨p2, hp2⟩ : ∃ p2, ({ p.session with lc := .start } : Session).ready.step action 0
            = .ok p2 := Session.step_start_ok rfl htype
        have hsame2 := Session.step_sameKin hp2
          (by rintro q cb rfl; cases hn) (by rintro c rfl; cases hn)
        generalize (w.setSession x p.session).execEffects x p.effects = w1
        have hs1 : (w1.setSession x { p.session with lc := .start }).session x
            = { p.session with lc := .start } := Function.update_self ..
        rw [Worker.dispatch, hs1, hp2]
        refine postActions_lone ?_
        rw [execEffects_session, Worker.setSession_self]
        exact Session.Lone.sameKin (s := ({ p.session with lc := .start } : Session).ready)
          hlone1 hsame2
      | joinNew k hop => rw [hop] at hsw; cases k <;> cases hsw
      | free hop => rcases hop with hop | hop <;> rw [hop] at hsw <;> cases hsw
      | stay hop => rcases hop with hop | hop <;> rw [hop] at hsw <;> cases hsw
    · exact postActions_lone (by rw [hnew]; exact hlone1)
  · exact ⟨_, _, by rw [esqSessionTakeAction, if_neg hm]⟩

end

/-! ## 実行 -/

/-- list の不変量と、どの session の見張り方も poll と合っていること。 -/
structure RemovalInv (w : Worker) : Prop where
  worker : ∃ m n, WorkerInv w m n
  lone : ∀ x, (w.session x).Lone
  watch : ∀ x, (w.session x).watch.Ok (w.kern x)

section

variable {w w' : Worker} {x : Nat} {action : Action}

theorem RemovalInv.init : RemovalInv Worker.init where
  worker := ⟨_, _, workerInv_init⟩
  lone _ := ⟨rfl, rfl, rfl⟩
  watch _ := rfl

theorem RemovalInv.wf (h : RemovalInv w) (x : Nat) : (w.session x).WF := by
  obtain ⟨m, n, hw⟩ := h.worker
  exact hw.wf x

theorem RemovalInv.tracked (h : RemovalInv w) (hw : ∃ m n, WorkerInv w' m n)
    (ht : Tracked w w' x) : RemovalInv w' := by
  refine ⟨hw, fun y => ?_, fun y => ?_⟩
  · by_cases hy : y = x
    · exact hy ▸ ht.lone
    · rw [(ht.others y hy).1]
      exact h.lone y
  · by_cases hy : y = x
    · exact hy ▸ ht.watch
    · rw [(ht.others y hy).1, (ht.others y hy).2]
      exact h.watch y

theorem removalInv_act {w0 : Worker} {r : Int} (h : RemovalInv w)
    (hw0 : ∃ m n, WorkerInv w0 m n) (hsess : w0.session = w.session)
    (hkern : ∀ y, y ≠ x → w0.kern y = w.kern y) (hres : action.reserved = false)
    (hdead : (w.session x).magic = false → w0.kern x = w.kern x)
    (hdue : (w.session x).magic = true → Due (w.session x) (w0.kern x) action)
    (ht : esqSessionTakeAction w0 x action 0 = .ok (r, w')) : RemovalInv w' := by
  obtain ⟨m, n, hinv⟩ := hw0
  have hw' := hinv.act hres ht
  cases hm : (w.session x).magic with
  | true =>
    have hx : w0.session x = w.session x := by rw [hsess]
    have htr := takeAction_tracked (by rw [hx]; exact hm) (by rw [hx]; exact h.wf x)
      (by rw [hx]; exact h.lone x) (by rw [hx]; exact hdue hm) ht
    refine h.tracked hw' ⟨fun y hy => ?_, htr.watch, htr.lone⟩
    rw [← hkern y hy, ← hsess]
    exact htr.others y hy
  | false =>
    rw [esqSessionTakeAction, if_neg (by rw [hsess, hm]; simp)] at ht
    obtain ⟨-, rfl⟩ := Prod.mk.inj (Except.ok.inj ht)
    refine ⟨hw', fun y => by rw [hsess]; exact h.lone y, fun y => ?_⟩
    rw [hsess]
    by_cases hy : y = x
    · subst hy
      rw [hdead hm]
      exact h.watch y
    · rw [hkern y hy]
      exact h.watch y

theorem noEventQueued_iff : NoEventQueued w x ↔ (w.kern x).Eventless := by
  unfold NoEventQueued Kern.Eventless Worker.kern
  simp only [List.mem_filterMap, List.mem_filter, decide_eq_true_eq, not_exists, not_and]
  constructor
  · rintro h bits c ⟨hc, hx⟩
    exact h c hc hx bits
  · intro h c hc hx bits
    exact h bits c ⟨hc, hx⟩

theorem RemovalInv.due_act (h : RemovalInv w) (hlegal : RemovalLegal w (.act x action))
    (hsafe : RemovalSafe w (.act x action)) : Due (w.session x) (w.kern x) action := by
  have hw := h.watch x
  cases action with
  | removeFd => exact ⟨hw, fun hfd => noEventQueued_iff.mp (hsafe hfd)⟩
  | windUp => exact ⟨hw, Or.inl rfl⟩
  | windUpRr => exact ⟨hw, Or.inl rfl⟩
  | addSockFdMulti params => exact ⟨hw, Or.inl rfl⟩
  | addSockFdSingle params => exact ⟨hw, Or.inl rfl⟩
  | executeCb => exact ⟨hw, Or.inl rfl⟩
  | hashLockRead => exact ⟨hw, Or.inl rfl⟩
  | hashLockWrite => exact ⟨hw, Or.inl rfl⟩
  | _ => cases hlegal

theorem RemovalInv.place_of_inList {l : WorkerList} (h : RemovalInv w) (hl : InList w l x) :
    (w.session x).place = .anywhere ∨ (w.session x).place = .list l := by
  obtain ⟨m, n, hw⟩ := h.worker
  have hmem := hw.inList_iff.mp hl
  have hat := hw.place x
  cases hp : (w.session x).place with
  | anywhere => exact Or.inl rfl
  | nowhere =>
    rw [hp] at hat
    exact absurd hmem (hat.1 l)
  | newList =>
    rw [hp] at hat
    obtain ⟨k, hk⟩ := hat
    exact absurd hk (hw.apart hmem)
  | list l' =>
    rw [hp] at hat
    rw [hw.lists.disjoint hat hmem]
    exact Or.inr rfl

theorem RemovalInv.due_tick (h : RemovalInv w) (hlegal : RemovalLegal w (.tick x))
    (hsafe : RemovalSafe w (.tick x)) : Due (w.session x) (w.kern x) .notifyTimeout := by
  obtain ⟨l, htimed, hl⟩ := hlegal
  refine ⟨h.watch x, ?_, fun hfd => noEventQueued_iff.mp (hsafe hfd)⟩
  rcases h.place_of_inList hl with hp | hp
  · exact Or.inl hp
  · exact Or.inr ⟨l, htimed, hp⟩

theorem RemovalInv.due_exit (h : RemovalInv w) (hlegal : RemovalLegal w (.exit x))
    (hsafe : RemovalSafe w (.exit x)) : Due (w.session x) (w.kern x) .notifyExit := by
  obtain ⟨l, hl⟩ := hlegal
  refine ⟨h.watch x, ?_, fun hlc hfd => noEventQueued_iff.mp (hsafe.1 hlc hfd), hsafe.2⟩
  rcases h.place_of_inList hl with hp | hp
  · exact Or.inl hp
  · exact Or.inr ⟨l, hp⟩

theorem kern_eraseIdx {i : Nat} {c : Cqe} (hc : w.cq[i]? = some c) (y : Nat) :
    ∃ as bs, (w.kern y).notices = as ++ (if c.session = y then c.notice.toList else []) ++ bs ∧
      ({ w with cq := w.cq.eraseIdx i } : Worker).kern y = ⟨w.poll y, as ++ bs⟩ := by
  obtain ⟨hi, rfl⟩ := List.getElem?_eq_some_iff.mp hc
  have hsplit : w.cq = w.cq.take i ++ w.cq[i] :: w.cq.drop (i + 1) := by
    rw [← List.drop_eq_getElem_cons hi, List.take_append_drop]
  refine ⟨((w.cq.take i).filter fun c => c.session = y).filterMap Cqe.notice,
    ((w.cq.drop (i + 1)).filter fun c => c.session = y).filterMap Cqe.notice, ?_, ?_⟩
  · generalize w.cq[i] = c at hsplit ⊢
    unfold Worker.kern
    conv_lhs => rw [hsplit]
    by_cases hy : c.session = y
    · cases hn : c.notice <;> simp [hy, hn]
    · simp [hy]
  · unfold Worker.kern
    simp [List.eraseIdx_eq_take_drop_succ]

/-- **積まれている completion は、見張り方の受け付ける通知だけである。** -/
theorem RemovalInv.due_deliver {i : Nat} {c : Cqe} {notice : Notice} (h : RemovalInv w)
    (hc : w.cq[i]? = some c) (hn : c.notice = some notice) :
    Due (w.session c.session) (({ w with cq := w.cq.eraseIdx i } : Worker).kern c.session)
      notice.action := by
  obtain ⟨as, bs, hold, hnew⟩ := kern_eraseIdx hc c.session
  rw [if_pos rfl, hn] at hold
  rw [hnew]
  have hw := h.watch c.session
  have hmem : notice ∈ (w.kern c.session).notices := by rw [hold]; simp
  have hnil : (w.kern c.session).notices = [notice] → as ++ bs = [] := by
    intro he
    rw [hold] at he
    have := congrArg List.length he
    simp only [Option.toList_some, List.length_append, List.length_cons, List.length_nil] at this
    exact List.eq_nil_of_length_eq_zero (by rw [List.length_append]; omega)
  have hpoll : (w.kern c.session).poll = w.poll c.session := rfl
  cases hv : (w.session c.session).watch with
  | off =>
    rw [hv, Watch.off_ok] at hw
    rw [hw] at hmem
    cases hmem
  | oneShot =>
    rw [hv] at hw
    rcases hw with hw | hw | ⟨bits, hw⟩
    · rw [hw] at hmem
      cases hmem
    · rw [hw] at hmem
      cases hmem
    · rw [hw] at hmem hnil hpoll
      obtain rfl := List.mem_singleton.mp hmem
      refine Or.inl ⟨hv, ?_⟩
      rw [hnil rfl, ← hpoll]
  | stream =>
    rw [hv] at hw
    obtain ⟨hw1, hw2⟩ := hw
    cases notice with
    | removed => exact absurd hmem hw2
    | event bits =>
      refine Or.inr ⟨hv, hw1, fun hr => hw2 ?_⟩
      rw [hold]
      rcases List.mem_append.mp hr with hr | hr
      · simp [hr]
      · simp [hr]
  | removing =>
    rw [hv] at hw
    rcases hw with hw | hw
    · rw [hw] at hmem
      cases hmem
    · rw [hw] at hmem hnil hpoll
      obtain rfl := List.mem_singleton.mp hmem
      refine ⟨hv, ?_⟩
      rw [hnil rfl, ← hpoll]

theorem takeAction_of_do {w0 : Worker}
    (h : (do let (_, w) ← esqSessionTakeAction w0 x action esqOk; Except.ok w) = .ok w') :
    ∃ r, esqSessionTakeAction w0 x action 0 = .ok (r, w') := by
  obtain ⟨⟨r, w1⟩, ht, hw⟩ := bind_eq_ok.mp h
  cases hw
  exact ⟨r, ht⟩

theorem Cqe.notice_of_ne {res : Int} (hres : res ≠ -ecanceled) :
    (Cqe.notice ⟨x, res⟩).toList = [] ∨ ∃ bits, (Cqe.notice ⟨x, res⟩).toList = [.event bits] := by
  unfold Cqe.notice
  rw [if_neg hres]
  split
  · exact Or.inl rfl
  · split
    · exact Or.inl rfl
    · exact Or.inr ⟨_, rfl⟩

theorem kern_completePoll_of_ne {res : Int} (hy : x ≠ y) :
    (w.completePoll x res).kern y = w.kern y := by
  have hyx : y ≠ x := fun he => hy he.symm
  unfold Worker.completePoll
  cases w.poll x with
  | idle => rfl
  | singleShot =>
    simp only [kern_push]
    rw [if_neg hy, List.append_nil, Function.update_of_ne hyx]
    rfl
  | multiShot =>
    have hk := kern_push w ⟨x, res⟩ w.poll y
    rw [if_neg hy, List.append_nil] at hk
    exact hk

theorem RemovalInv.watch_completePoll {res : Int} (h : RemovalInv w) (hres : res ≠ -ecanceled) :
    (w.session x).watch.Ok ((w.completePoll x res).kern x) := by
  have hw := h.watch x
  have hpoll : (w.kern x).poll = w.poll x := rfl
  unfold Worker.completePoll
  cases hp : w.poll x with
  | idle => exact hw
  | singleShot =>
    rw [hp] at hpoll
    obtain ⟨hv, hk⟩ := Watch.eq_oneShot_of_singleShot hw hpoll
    simp only [kern_push, Function.update_self, if_true]
    rw [hv, hk]
    rcases Cqe.notice_of_ne (x := x) hres with hn | ⟨bits, hn⟩
    · rw [hn]
      exact Or.inr (Or.inl rfl)
    · rw [hn]
      exact Or.inr (Or.inr ⟨bits, rfl⟩)
  | multiShot =>
    rw [hp] at hpoll
    obtain ⟨hv, hno⟩ := Watch.eq_stream_of_multiShot hw hpoll
    have hk := kern_push w ⟨x, res⟩ w.poll x
    simp only [if_true] at hk
    rw [hk, hv, hp]
    refine ⟨by simp, ?_⟩
    intro hmem
    rcases List.mem_append.mp hmem with hmem | hmem
    · exact hno hmem
    · rcases Cqe.notice_of_ne (x := x) hres with hn | ⟨bits, hn⟩
      · rw [hn] at hmem
        cases hmem
      · rw [hn] at hmem
        cases List.mem_singleton.mp hmem

theorem RemovalInv.complete {res : Int} (h : RemovalInv w) (hres : res ≠ -ecanceled) :
    RemovalInv (w.completePoll x res) := by
  have hinv := workerInv_step w (.complete x res) _ h.worker trivial rfl
  have hsess : (w.completePoll x res).session = w.session := by
    unfold Worker.completePoll
    cases w.poll x <;> rfl
  refine ⟨hinv, fun y => by rw [hsess]; exact h.lone y, fun y => ?_⟩
  rw [hsess]
  by_cases hy : x = y
  · subst hy
    exact h.watch_completePoll hres
  · rw [kern_completePoll_of_ne hy]
    exact h.watch y

theorem RemovalInv.worker_eraseIdx (h : RemovalInv w) (i : Nat) :
    ∃ m n, WorkerInv { w with cq := w.cq.eraseIdx i } m n := by
  obtain ⟨m, n, hw⟩ := h.worker
  exact ⟨m, n, ⟨⟨hw.lists, hw.news, hw.newTail, hw.apart, hw.lefts⟩, hw.place, hw.wf, hw.kin⟩⟩

theorem kern_eraseIdx_of_ne {i : Nat} {c : Cqe} {y : Nat} (hc : w.cq[i]? = some c)
    (hy : c.notice = none ∨ c.session ≠ y) :
    ({ w with cq := w.cq.eraseIdx i } : Worker).kern y = w.kern y := by
  obtain ⟨as, bs, hold, hnew⟩ := kern_eraseIdx hc y
  have hnil : (if c.session = y then c.notice.toList else []) = [] := by
    rcases hy with hy | hy
    · simp [hy]
    · rw [if_neg hy]
  rw [hnil, List.append_nil] at hold
  rw [hnew, ← hold]
  rfl

theorem RemovalInv.new (h : RemovalInv w) (hs : removalStep w (.new x) = .ok w') :
    RemovalInv w' := by
  rw [removalStep] at hs
  split at hs
  · cases hs
    exact h
  · next hm =>
    cases hs
    have hinv := workerInv_step w (.new x) (w.setSession x esqSessionNew) h.worker trivial
      (by rw [workerStep, if_neg hm])
    refine h.tracked hinv ⟨fun y hy => ⟨Function.update_of_ne hy _ _, rfl⟩, ?_, ?_⟩
    · have hw := h.watch x
      rw [Session.watch, if_neg hm] at hw
      rw [Worker.setSession_self]
      exact hw
    · rw [Worker.setSession_self]
      exact ⟨rfl, rfl, rfl⟩

theorem RemovalInv.pickUp {k : NewList} (h : RemovalInv w)
    (hs : removalStep w (.pickUp k) = .ok w') : RemovalInv w' := by
  have hs0 := hs
  rw [removalStep, esqWorkerPickUp] at hs
  split at hs
  · cases hs
    exact h
  · next x w1 hpop =>
    obtain ⟨r, ht⟩ := takeAction_of_do hs
    obtain ⟨m, n, hinv⟩ := h.worker
    have hw' := hinv.pickUp hs0
    obtain ⟨-, -, -, -, hsess, -⟩ := hinv.toListInv.popNewList hpop
    have hkern : ∀ y, w1.kern y = w.kern y := by
      unfold Worker.popNewList at hpop
      split at hpop
      · cases hpop
      · cases hpop
        exact fun _ => rfl
    by_cases hm : (w1.session x).magic = true
    · have hdue : Due (w1.session x) (w1.kern x) .pickUp :=
        ⟨by rw [hsess, hkern]; exact h.watch x, Or.inr rfl⟩
      have htr := takeAction_tracked hm (by rw [hsess]; exact h.wf x)
        (by rw [hsess]; exact h.lone x) hdue ht
      refine h.tracked hw' ⟨fun y hy => ?_, htr.watch, htr.lone⟩
      rw [← hkern y, ← hsess]
      exact htr.others y hy
    · rw [esqSessionTakeAction, if_neg hm] at ht
      obtain ⟨-, rfl⟩ := Prod.mk.inj (Except.ok.inj ht)
      exact ⟨hw', fun y => by rw [hsess]; exact h.lone y,
        fun y => by rw [hsess, hkern]; exact h.watch y⟩

theorem Due.magic_of_notice {k : Kern} {notice : Notice} {s : Session}
    (hdue : Due s k notice.action) : s.magic = true := by
  by_contra hm
  have hoff : s.watch = .off := by simp [Session.watch, hm]
  cases notice with
  | removed =>
    have hw := hdue.1
    rw [hoff] at hw
    cases hw
  | event bits =>
    rcases hdue with ⟨hw, -⟩ | ⟨hw, -⟩ <;> rw [hoff] at hw <;> cases hw

theorem RemovalInv.deliver {i : Nat} (h : RemovalInv w)
    (hs : removalStep w (.deliver i) = .ok w') : RemovalInv w' := by
  rw [removalStep] at hs
  split at hs
  · cases hs
    exact h
  · next c hc =>
    rw [esqWorkerReceiveFdEvent] at hs
    split at hs
    · next hn =>
      cases hs
      refine ⟨h.worker_eraseIdx i, h.lone, fun y => ?_⟩
      rw [kern_eraseIdx_of_ne hc (Or.inl hn)]
      exact h.watch y
    · next notice hn =>
      obtain ⟨r, ht⟩ := takeAction_of_do hs
      have hdue := h.due_deliver hc hn
      refine removalInv_act h (h.worker_eraseIdx i) rfl
        (fun y hy => kern_eraseIdx_of_ne hc (Or.inr fun he => hy he.symm)) ?_ ?_ (fun _ => hdue) ht
      · cases notice <;> rfl
      · intro hm
        rw [hdue.magic_of_notice] at hm
        cases hm

/-- **不変量は、条件を満たす一つの操作で保たれる。** -/
theorem removalInv_step (w : Worker) (op : RemovalOp) (w' : Worker) (h : RemovalInv w)
    (hok : RemovalLegal w op ∧ RemovalSafe w op) (hs : removalStep w op = .ok w') :
    RemovalInv w' := by
  obtain ⟨hlegal, hsafe⟩ := hok
  cases op with
  | new x => exact h.new hs
  | act x action =>
    obtain ⟨r, ht⟩ := takeAction_of_do hs
    have hres : action.reserved = false := by
      cases action with
      | pickUp => cases hlegal
      | setParent p cb => cases hlegal
      | addChild c => cases hlegal
      | _ => rfl
    exact removalInv_act h h.worker rfl (fun _ _ => rfl) hres (fun _ => rfl)
      (fun _ => h.due_act hlegal hsafe) ht
  | pickUp k => exact h.pickUp hs
  | complete x res =>
    cases hs
    exact h.complete hlegal
  | deliver i => exact h.deliver hs
  | tick x =>
    obtain ⟨r, ht⟩ := takeAction_of_do hs
    exact removalInv_act h h.worker rfl (fun _ _ => rfl) rfl (fun _ => rfl)
      (fun _ => h.due_tick hlegal hsafe) ht
  | exit x =>
    obtain ⟨r, ht⟩ := takeAction_of_do hs
    exact removalInv_act h h.worker rfl (fun _ _ => rfl) rfl (fun _ => rfl)
      (fun _ => h.due_exit hlegal hsafe) ht

def RemovalOp.isDelivery : RemovalOp → Bool
  | .deliver _ => true
  | .tick _ => true
  | .exit _ => true
  | _ => false

theorem RemovalInv.delivers {op : RemovalOp} (h : RemovalInv w) (hd : op.isDelivery = true)
    (hlegal : RemovalLegal w op) (hsafe : RemovalSafe w op) : ∃ w', removalStep w op = .ok w' := by
  cases op with
  | deliver i =>
    rw [removalStep]
    split
    · exact ⟨_, rfl⟩
    · next c hc =>
      rw [esqWorkerReceiveFdEvent]
      split
      · exact ⟨_, rfl⟩
      · next notice hn =>
        have hdue := h.due_deliver hc hn
        obtain ⟨r, w', ht⟩ := takeAction_accepts (w := { w with cq := w.cq.eraseIdx i })
          (h.wf c.session) (h.lone c.session) (by cases notice <;> rfl) fun _ => hdue
        exact ⟨w', by rw [show esqOk = 0 from rfl, ht]; rfl⟩
  | tick x =>
    obtain ⟨r, w', ht⟩ := takeAction_accepts (h.wf x) (h.lone x) rfl
      fun _ => h.due_tick hlegal hsafe
    exact ⟨w', by rw [removalStep, show esqOk = 0 from rfl, ht]; rfl⟩
  | exit x =>
    obtain ⟨r, w', ht⟩ := takeAction_accepts (h.wf x) (h.lone x) rfl
      fun _ => h.due_exit hlegal hsafe
    exact ⟨w', by rw [removalStep, show esqOk = 0 from rfl, ht]; rfl⟩
  | _ => cases hd

end

def removalStep? (w : Worker) (op : RemovalOp) : Option Worker := (removalStep w op).toOption

theorem inList_of_head {w : Worker} {l : WorkerList} {x : Nat} (hh : (w.ends l).head = some x)
    (hn : w.links.next x = none) : InList w l x := by
  refine ⟨[x], ?_, List.mem_singleton.mpr rfl⟩
  rw [hh]
  exact ⟨rfl, hn⟩

end Esq
