import Esq.Infra.Eventually
import Esq.Infra.Run
import Esq.Session.Solo

/-!
# event bit と callback

`esq_session_get_event_bits` は、callback が動く間の `event_bits` を返す。届いた bit は、session の
いる所によって `event_bits` か `event_bits2` に足される。
-/

namespace Esq

open Infra

/-! ## bit -/

theorem orBits_lt (a b : Nat) : orBits a b < 2 ^ 16 := Nat.mod_lt _ (by decide)

theorem orBits_assoc (a b c : Nat) : orBits (orBits a b) c = orBits a (orBits b c) := by
  unfold orBits
  refine Nat.eq_of_testBit_eq fun i => ?_
  simp only [Nat.testBit_mod_two_pow, Nat.testBit_or]
  by_cases hi : i < 16 <;> simp [hi, Bool.or_assoc]

theorem orBits_zero {a : Nat} (ha : a < 2 ^ 16) : orBits a 0 = a := by
  unfold orBits
  rw [Nat.or_zero, Nat.mod_eq_of_lt ha]

theorem zero_orBits {a : Nat} (ha : a < 2 ^ 16) : orBits 0 a = a := by
  unfold orBits
  rw [Nat.zero_or, Nat.mod_eq_of_lt ha]

theorem testBit_orBits (a b k : Nat) :
    (orBits a b).testBit k = (decide (k < 16) && (a.testBit k || b.testBit k)) := by
  unfold orBits
  rw [Nat.testBit_mod_two_pow, Nat.testBit_or]

/-! ## session のいる所 -/

inductive BitPlace where
  /-- socket の session になる前 -/
  | fresh
  /-- worker に拾われる前 -/
  | queued
  /-- event を待つ -/
  | resting
  /-- callback を待つ -/
  | active
  /-- fd が外れるのを待って active になる -/
  | removing
  /-- single shot の callback が動いている -/
  | running
  /-- single shot の callback が fd を仕掛け直した -/
  | reinstall
  /-- multi shot の callback が動いている -/
  | runningMulti
  /-- fd を外して、解放されるのを待つ -/
  | closing
  /-- socket の session でなくなった -/
  | left
  /-- 起こらない組み合わせ -/
  | astray
deriving DecidableEq, Repr

def SingleShotLabel.bitPlace : SingleShotLabel → BitPlace
  | .initial => .queued
  | .waitForCpu => .queued
  | .windedUp => .resting
  | .waitForRemovedThenActive => .removing
  | .active => .active
  | .executeCb => .running
  | .waitForReinstall => .reinstall
  | .die => .astray

def MultiShotLabel.bitPlace : MultiShotLabel → BitPlace
  | .initial => .queued
  | .waitForCpu => .queued
  | .windedUp => .resting
  | .active => .active
  | .executeCb => .runningMulti
  | .waitForRemovedAndWindUp => .closing
  | .waitForRemoved => .closing
  | .waitForWindUp => .closing
  | .die => .astray

def Session.bitPlace (s : Session) : BitPlace :=
  match s.sessionType, s.lc with
  | .new, _ => .fresh
  | .noFd, _ => .fresh
  | .socketCb, .single l => l.bitPlace
  | .multiSocketCb, .multi l => l.bitPlace
  | .socketCb, _ => .astray
  | .multiSocketCb, _ => .astray
  | .mco, _ => .left
  | .waitForHashLock, _ => .left

def SingleShotLabel.owed : SingleShotLabel → Option Action
  | .initial => some .windUp
  | .waitForCpu => some .pickUp
  | .windedUp => none
  | .waitForRemovedThenActive => some .notifyAioRemoved
  | .active => some .executeCb
  | .executeCb => some .windUp
  | .waitForReinstall => some .windUp
  | .die => none

def MultiShotLabel.owed : MultiShotLabel → Option Action
  | .initial => some .windUp
  | .waitForCpu => some .pickUp
  | .windedUp => none
  | .active => some .executeCb
  | .executeCb => some .windUp
  | .waitForRemovedAndWindUp => some .windUp
  | .waitForRemoved => some .notifyAioRemoved
  | .waitForWindUp => some .windUp
  | .die => none

def Session.owed (s : Session) : Option Action :=
  match s.lc with
  | .start => none
  | .single l => l.owed
  | .multi l => l.owed

/-- 次の callback か解放までに残っている手間。 -/
def SingleShotLabel.bitRank : SingleShotLabel → Nat
  | .waitForRemovedThenActive => 2
  | .active => 1
  | .executeCb => 3
  | .waitForReinstall => 2
  | _ => 0

def MultiShotLabel.bitRank : MultiShotLabel → Nat
  | .active => 1
  | .executeCb => 3
  | .waitForRemovedAndWindUp => 2
  | .waitForRemoved => 1
  | .waitForWindUp => 1
  | _ => 0

def Session.bitRank (s : Session) : Nat :=
  match s.lc with
  | .start => 0
  | .single l => l.bitRank
  | .multi l => l.bitRank

/-! ## 届いた bit -/

def Lc.movesFd : Lc → Action → Bool
  | .single .waitForCpu, .pickUp => true
  | .single .waitForReinstall, .windUp => true
  | .single .windedUp, .notifyTimeout => true
  | .single .windedUp, .notifyExit => true
  | .multi .waitForCpu, .pickUp => true
  | .multi .executeCb, .removeFd => true
  | _, _ => false

def Session.fdFails (s : Session) (action : Action) (os : Int) : Prop :=
  s.lc.movesFd action = true ∧ fdNeedInstall s.fd ∧ os ≠ 0

instance (s : Session) (action : Action) (os : Int) : Decidable (s.fdFails action os) :=
  inferInstanceAs (Decidable (_ ∧ _ ∧ _))

def Action.bits : Action → Nat
  | .notifyEvent bits => bits
  | .notifyTimeout => esqEventBitTimeout
  | .notifyExit => esqEventBitExit
  | _ => 0

/-- 一歩で届いた bit。失敗も `ESQ_EVENT_BIT_ERROR` として届く。 -/
def Session.notified (s : Session) (action : Action) (os : Int) : Nat :=
  orBits action.bits (if s.fdFails action os then esqEventBitError else 0)

/-- socket の状態機械を離れるか、別の型で始め直す action。 -/
def Action.leavesSingleShot : Action → Bool
  | .addSockFdMulti _ => true
  | .hashLockWrite => true
  | _ => false

/-! ## 一歩で起こること -/

/-- `event_bits` に bit を溜めて、callback か解放へ進む所。 -/
def BitPlace.holds : BitPlace → Bool
  | .active => true
  | .removing => true
  | .running => true
  | .reinstall => true
  | _ => false

inductive BitMove (s : Session) (action : Action) (os : Int) (t : Session) : Prop where
  | free (hexec : action ≠ .executeCb) (ht : t.magic = false)
  | leave (hexec : action ≠ .executeCb) (hs : s.bitPlace = .fresh ∨ s.bitPlace = .running)
    (hleave : s.bitPlace = .running → action.leavesSingleShot = true)
    (hno : s.notified action os = 0) (ht : t.bitPlace = .left)
  /-- 始め直す。`event_bits` は 0 になる -/
  | enter (hexec : action ≠ .executeCb) (hs : s.bitPlace = .fresh ∨ s.bitPlace = .running)
    (hleave : s.bitPlace = .running → action.leavesSingleShot = true)
    (hno : s.notified action os = 0) (ht : t.bitPlace = .queued) (hbits : t.eventBits = 0)
  /-- 何も届かないまま、worker か event を待つ -/
  | wait (hexec : action ≠ .executeCb) (hs : s.bitPlace = .queued ∨ s.bitPlace = .reinstall)
    (ht : t.bitPlace = .queued ∨ t.bitPlace = .resting)
    (hrest : s.bitPlace = .reinstall → action = .windUp ∧ ¬ (fdNeedInstall s.fd ∧ os ≠ 0))
    (hno : s.notified action os = 0) (hbits : t.eventBits = s.eventBits)
  | wake (hexec : action ≠ .executeCb) (hs : s.bitPlace = .queued ∨ s.bitPlace = .resting)
    (ht : t.bitPlace.holds = true)
    (hbits : t.eventBits = orBits s.eventBits (s.notified action os))
  | hold (hexec : action ≠ .executeCb) (hleave : action.leavesSingleShot = false)
    (hs : s.bitPlace.holds = true) (ht : t.bitPlace.holds = true)
    (hbits : t.eventBits = orBits s.eventBits (s.notified action os))
    (hrank : t.bitRank ≤ s.bitRank) (howed : s.owed = some action → t.bitRank < s.bitRank)
  | execute (hexec : action = .executeCb) (hs : s.bitPlace = .active)
    (ht : t.bitPlace = .running ∨ t.bitPlace = .runningMulti ∧ t.eventBits2 = 0)
    (hbits : t.eventBits = s.eventBits)
  /-- multi shot の callback の間に届いた bit は `event_bits2` に足される -/
  | holdMulti (hexec : action ≠ .executeCb) (hwind : action ≠ .windUp)
    (hs : s.bitPlace = .runningMulti) (ht : t.bitPlace = .runningMulti)
    (hbits : t.eventBits = s.eventBits)
    (hbits2 : t.eventBits2 = orBits s.eventBits2 (s.notified action os))
    (hrank : t.bitRank ≤ s.bitRank) (howed : s.owed ≠ some action)
  | reload (hexec : action = .windUp) (hs : s.bitPlace = .runningMulti)
    (hno : s.notified action os = 0) (ht : t.bitPlace = .active) (hnonzero : s.eventBits2 ≠ 0)
    (hbits : t.eventBits = s.eventBits2) (hrank : t.bitRank < s.bitRank)
  | rest (hexec : action = .windUp) (hs : s.bitPlace = .runningMulti)
    (hno : s.notified action os = 0) (ht : t.bitPlace = .resting) (hzero : s.eventBits2 = 0) (hbits : t.eventBits = s.eventBits)
  | close (hexec : action ≠ .executeCb) (hs : s.bitPlace = .runningMulti ∨ s.bitPlace = .closing)
    (ht : t.bitPlace = .closing) (hrank : t.bitRank ≤ s.bitRank)
    (howed : s.owed = some action → t.bitRank < s.bitRank)

section

variable {s t : Session} {action : Action} {os r : Int} {p : PtRun}

theorem BitMove.of_execute (h : BitMove s action os t) (hexec : action = .executeCb) :
    s.bitPlace = .active ∧ t.eventBits = s.eventBits := by
  cases h with
  | execute _ hs ht hbits => exact ⟨hs, hbits⟩
  | reload hwind => rw [hexec] at hwind; cases hwind
  | rest hwind => rw [hexec] at hwind; cases hwind
  | free hne => exact absurd hexec hne
  | leave hne => exact absurd hexec hne
  | enter hne => exact absurd hexec hne
  | wait hne => exact absurd hexec hne
  | wake hne => exact absurd hexec hne
  | hold hne => exact absurd hexec hne
  | holdMulti hne => exact absurd hexec hne
  | close hne => exact absurd hexec hne

theorem bitPlace_single {l : SingleShotLabel} (ht : s.sessionType = .socketCb)
    (hlc : s.lc = .single l) : s.bitPlace = l.bitPlace := by
  unfold Session.bitPlace
  rw [ht, hlc]

theorem bitPlace_multi {l : MultiShotLabel} (ht : s.sessionType = .multiSocketCb)
    (hlc : s.lc = .multi l) : s.bitPlace = l.bitPlace := by
  unfold Session.bitPlace
  rw [ht, hlc]

theorem takeAction_cases (hm : s.magic = true) (h : s.takeAction action os = .ok (r, t)) :
    ∃ p, s.ready.step action os = .ok p
      ∧ (wantsSwitch p.session.postOp = false ∧ t = p.session.settle.2
        ∨ wantsSwitch p.session.postOp = true ∧ ∃ p',
          ({ p.session with lc := .start } : Session).ready.step action os = .ok p'
            ∧ t = p'.session.settle.2) := by
  unfold Session.takeAction at h
  rw [if_pos hm] at h
  obtain ⟨p, hp, h⟩ := bind_eq_ok.mp h
  refine ⟨p, hp, ?_⟩
  split at h
  · next hsw =>
    obtain ⟨p', hp', h⟩ := bind_eq_ok.mp h
    exact Or.inr ⟨hsw, p', hp', congrArg Prod.snd (Except.ok.inj h).symm⟩
  · next hsw =>
    exact Or.inl ⟨Bool.eq_false_iff.mpr hsw, congrArg Prod.snd (Except.ok.inj h).symm⟩

def Session.staysPut (s : Session) : Prop :=
  s.postOp = popNoOp ∨ s.postOp = popReturnValue ∨ s.postOp = popJoinLocalNewList
    ∨ s.postOp = popJoinGlobalNewList

theorem Session.staysPut.settle (h : s.staysPut) : s.settle.2 = s := by
  unfold Session.settle
  rcases h with h | h | h | h <;> rw [h] <;> rfl

theorem Session.staysPut.not_switch (h : s.staysPut) : wantsSwitch s.postOp = false := by
  rcases h with h | h | h | h <;> rw [h] <;> rfl

theorem takeAction_stays (hm : s.magic = true) (hp : s.ready.step action os = .ok p)
    (hstay : p.session.staysPut) (h : s.takeAction action os = .ok (r, t)) : t = p.session := by
  obtain ⟨p', hp', h⟩ := takeAction_cases hm h
  rw [hp] at hp'
  cases hp'
  rcases h with ⟨-, h⟩ | ⟨hsw, -⟩
  · rw [h, hstay.settle]
  · rw [hstay.not_switch] at hsw
    cases hsw

theorem takeAction_frees (hm : s.magic = true) (hp : s.ready.step action os = .ok p)
    (hfree : p.session.postOp = popFreeSession ∨ p.session.postOp = 5)
    (h : s.takeAction action os = .ok (r, t)) : t.magic = false := by
  obtain ⟨p', hp', h⟩ := takeAction_cases hm h
  rw [hp] at hp'
  cases hp'
  rcases h with ⟨-, h⟩ | ⟨hsw, -⟩
  · rw [h]
    unfold Session.settle
    rcases hfree with h | h <;> rw [h] <;> rfl
  · rcases hfree with h | h <;> rw [h] at hsw <;> cases hsw

theorem takeAction_switches (hm : s.magic = true) (hp : s.ready.step action os = .ok p)
    (hop : p.session.postOp = popSwitchSessionType) {p' : PtRun}
    (hp' : ({ p.session with lc := .start } : Session).ready.step action os = .ok p')
    (hstay : p'.session.staysPut) (h : s.takeAction action os = .ok (r, t)) : t = p'.session := by
  obtain ⟨q, hq, h⟩ := takeAction_cases hm h
  rw [hp] at hq
  cases hq
  rcases h with ⟨hno, -⟩ | ⟨-, q', hq', h⟩
  · rw [hop] at hno
    cases hno
  · rw [hp'] at hq'
    cases hq'
    rw [h, hstay.settle]

theorem notified_of_still (h : s.lc.movesFd action = false) :
    s.notified action os = orBits action.bits 0 := by
  unfold Session.notified
  rw [if_neg fun hf => by rw [hf.1] at h; cases h]

theorem notified_of_fails (hmove : s.lc.movesFd action = true) (hbits : action.bits = 0)
    (hf : fdNeedInstall s.fd ∧ os ≠ 0) : s.notified action os = esqEventBitError := by
  unfold Session.notified
  rw [if_pos ⟨hmove, hf⟩, hbits]
  rfl

theorem notified_of_succeeds (hbits : action.bits = 0) (hf : ¬ (fdNeedInstall s.fd ∧ os ≠ 0)) :
    s.notified action os = 0 := by
  unfold Session.notified
  rw [if_neg fun h => hf h.2, hbits]
  rfl

theorem orBits_notified (h : s.lc.movesFd action = false) (a : Nat) :
    orBits a (s.notified action os) = orBits a action.bits := by
  rw [notified_of_still h, ← orBits_assoc, orBits_zero (orBits_lt _ _)]

theorem notified_zero (h : s.lc.movesFd action = false) (hbits : action.bits = 0) :
    s.notified action os = 0 := by
  rw [notified_of_still h, hbits]
  rfl

/-! ## single shot の一歩 -/

theorem SingleShot.installFd_cases (p : PtRun) (os : Int) :
    (fdNeedInstall p.session.fd ∧ os ≠ 0 ∧ (SingleShot.installFd p os).session
        = { p.session with
            eventBits := orBits p.session.eventBits esqEventBitError
            postOp := popNoOp
            lc := .single .active })
      ∨ (¬ (fdNeedInstall p.session.fd ∧ os ≠ 0) ∧ (SingleShot.installFd p os).session
        = { p.session with postOp := popNoOp, lc := .single .windedUp }) := by
  unfold SingleShot.installFd
  split
  · next hfd =>
    split
    · next hos => exact Or.inl ⟨hfd, hos, rfl⟩
    · next hos => exact Or.inr ⟨fun h => hos h.2, rfl⟩
  · next hfd => exact Or.inr ⟨fun h => hfd h.1, rfl⟩

theorem SingleShot.removeFdThenActive_cases (p : PtRun) (os : Int) :
    ∃ l, (l = .active ∨ l = .waitForRemovedThenActive)
      ∧ (SingleShot.removeFdThenActive p os).session.lc = .single l
      ∧ (SingleShot.removeFdThenActive p os).session.postOp = p.session.postOp
      ∧ (SingleShot.removeFdThenActive p os).session.sessionType = p.session.sessionType
      ∧ (SingleShot.removeFdThenActive p os).session.eventBits
        = if fdNeedInstall p.session.fd ∧ os ≠ 0 then orBits p.session.eventBits esqEventBitError
          else p.session.eventBits := by
  unfold SingleShot.removeFdThenActive
  split
  · next hfd =>
    dsimp only
    split
    · next hos => exact ⟨.active, Or.inl rfl, rfl, rfl, rfl, (if_pos ⟨hfd, hos⟩).symm⟩
    · next hos =>
      refine ⟨.waitForRemovedThenActive, Or.inr rfl, rfl, ?_⟩
      rw [if_neg fun h => hos h.2]
      simp only [PtRun.changeToNoTimingList]
      split <;> exact ⟨rfl, rfl, rfl⟩
  · next hfd =>
    exact ⟨.active, Or.inl rfl, rfl, rfl, rfl, (if_neg fun h => hfd h.1).symm⟩

theorem holds_single {l : SingleShotLabel} (ht : t.sessionType = .socketCb)
    (hlc : t.lc = .single l) (hl : l.bitPlace.holds = true) : t.bitPlace.holds = true := by
  rw [bitPlace_single ht hlc, hl]

theorem hold_single {l m : SingleShotLabel} (hm : s.magic = true) (ht : s.sessionType = .socketCb)
    (hlc : s.lc = .single l) (hp : s.ready.step action os = .ok p)
    (hop : p.session.postOp = popNoOp) (hpt : p.session.sessionType = .socketCb)
    (hplc : p.session.lc = .single m) (hl : l.bitPlace.holds = true)
    (hl' : m.bitPlace.holds = true) (hexec : action ≠ .executeCb)
    (hleave : action.leavesSingleShot = false) (hmove : (Lc.single l).movesFd action = false)
    (hbits : p.session.eventBits = orBits s.eventBits action.bits)
    (hrank : m.bitRank ≤ l.bitRank) (howed : l.owed = some action → m.bitRank < l.bitRank)
    (h : s.takeAction action os = .ok (r, t)) : BitMove s action os t := by
  rw [takeAction_stays hm hp (Or.inl hop) h]
  refine .hold hexec hleave (holds_single ht hlc hl) (holds_single hpt hplc hl') ?_ ?_ ?_
  · rw [orBits_notified (by rw [hlc, hmove]), hbits]
  · unfold Session.bitRank
    rw [hlc, hplc]
    exact hrank
  · unfold Session.bitRank Session.owed
    rw [hlc, hplc]
    exact howed

theorem installFd_move (hm : s.magic = true) (ht : s.sessionType = .socketCb)
    (hmove : s.lc.movesFd action = true) (hbits : action.bits = 0)
    (hexec : action ≠ .executeCb) (hleave : action.leavesSingleShot = false)
    (hs : s.bitPlace = .queued ∨ s.bitPlace = .reinstall ∧ action = .windUp ∧ s.bitRank = 2)
    (hp : s.ready.step action os = .ok (SingleShot.installFd { session := s.ready } os))
    (h : s.takeAction action os = .ok (r, t)) : BitMove s action os t := by
  rcases SingleShot.installFd_cases { session := s.ready } os with ⟨hfd, hos, heq⟩ | ⟨hok, heq⟩
  · rw [takeAction_stays hm hp (by rw [heq]; exact Or.inl rfl) h, heq]
    have hno := notified_of_fails hmove hbits ⟨hfd, hos⟩
    rcases hs with hs | ⟨hs, hwind, hrank⟩
    · refine .wake hexec (Or.inl hs) (holds_single (l := .active) ht rfl rfl) ?_
      rw [hno]
      rfl
    · refine .hold hexec hleave (by rw [hs]; rfl) (holds_single (l := .active) ht rfl rfl) ?_ ?_ ?_
      · rw [hno]
        rfl
      · rw [hrank]
        exact Nat.le_succ 1
      · intro
        rw [hrank]
        exact Nat.lt_succ_self 1
  · rw [takeAction_stays hm hp (by rw [heq]; exact Or.inl rfl) h, heq]
    refine .wait hexec (hs.imp_right And.left)
      (Or.inr (bitPlace_single (l := .windedUp) ht rfl)) ?_ (notified_of_succeeds hbits hok) rfl
    intro hre
    rcases hs with hs | ⟨-, hwind, -⟩
    · rw [hs] at hre
      cases hre
    · exact ⟨hwind, hok⟩

theorem removeFd_move {bits : Nat} (hm : s.magic = true) (ht : s.sessionType = .socketCb)
    (hlc : s.lc = .single .windedUp) (hmove : s.lc.movesFd action = true) (hbits : action.bits = bits)
    (hexec : action ≠ .executeCb)
    (hp : s.ready.step action os = .ok (SingleShot.removeFdThenActive
      ((PtRun.addEventBits { session := s.ready } bits).post popNoOp) os))
    (h : s.takeAction action os = .ok (r, t)) : BitMove s action os t := by
  obtain ⟨l, hl, htl, hop, htt, hbits'⟩ := SingleShot.removeFdThenActive_cases
    ((PtRun.addEventBits { session := s.ready } bits).post popNoOp) os
  rw [takeAction_stays hm hp (Or.inl hop) h]
  refine .wake hexec (Or.inr (bitPlace_single ht hlc))
    (holds_single (htt.trans ht) htl (by rcases hl with rfl | rfl <;> rfl)) ?_
  rw [hbits']
  unfold Session.notified
  rw [hbits, ← orBits_assoc]
  by_cases hfd : fdNeedInstall s.fd ∧ os ≠ 0
  · rw [if_pos (show s.fdFails action os from ⟨hmove, hfd⟩)]
    exact if_pos hfd
  · rw [if_neg (show ¬ s.fdFails action os from fun h => hfd h.2), orBits_zero (orBits_lt _ _)]
    exact if_neg hfd

theorem queue_single {l m : SingleShotLabel} (hm : s.magic = true)
    (ht : s.sessionType = .socketCb) (hlc : s.lc = .single l)
    (hp : s.ready.step action os = .ok p) (hstay : p.session.staysPut)
    (hpt : p.session.sessionType = .socketCb) (hplc : p.session.lc = .single m)
    (hl : l.bitPlace = .queued) (hl' : m.bitPlace = .queued) (hexec : action ≠ .executeCb)
    (hmove : (Lc.single l).movesFd action = false) (hbits : action.bits = 0)
    (hbits' : p.session.eventBits = s.eventBits)
    (h : s.takeAction action os = .ok (r, t)) : BitMove s action os t := by
  rw [takeAction_stays hm hp hstay h]
  have hs := (bitPlace_single ht hlc).trans hl
  refine .wait hexec (Or.inl hs) (Or.inl ((bitPlace_single hpt hplc).trans hl')) ?_
    (notified_zero (by rw [hlc, hmove]) hbits) hbits'
  intro hre
  rw [hs] at hre
  cases hre

theorem step_single (ht : s.sessionType = .socketCb) (action : Action) (os : Int) :
    s.ready.step action os = esqPtOfSingleShotSocket s.ready action os := by
  unfold Session.step
  rw [show s.ready.sessionType = .socketCb from ht]

theorem single_move {l : SingleShotLabel} (hm : s.magic = true) (ht : s.sessionType = .socketCb)
    (hlc : s.lc = .single l) (hb : s.eventBits < 2 ^ 16)
    (h : s.takeAction action os = .ok (r, t)) : BitMove s action os t := by
  obtain ⟨p, hp, -⟩ := takeAction_cases hm h
  have hp' := hp
  have hready : s.ready.lc = .single l := hlc
  rw [step_single ht] at hp
  unfold esqPtOfSingleShotSocket at hp
  rw [hready] at hp
  have hs := bitPlace_single ht hlc
  have hbits := (orBits_zero hb).symm
  cases l with
  | initial =>
    cases action with
    | windUp =>
      cases hp
      exact queue_single (m := .waitForCpu) hm ht hlc hp' (Or.inr (Or.inr (Or.inl rfl))) ht rfl
        rfl rfl (by simp) rfl rfl rfl h
    | windUpRr =>
      cases hp
      exact queue_single (m := .waitForCpu) hm ht hlc hp' (Or.inr (Or.inr (Or.inr rfl))) ht rfl
        rfl rfl (by simp) rfl rfl rfl h
    | setParent parent cb =>
      simp only [SingleShot.initial] at hp
      split at hp
      · cases hp
      · cases hp
        exact queue_single (m := .initial) hm ht hlc hp' (Or.inl rfl) ht rfl rfl rfl (by simp) rfl
          rfl rfl h
    | _ => cases hp
  | waitForCpu =>
    cases action with
    | pickUp =>
      cases hp
      exact installFd_move hm ht (by rw [hlc]; rfl) rfl (by simp) rfl (Or.inl hs) hp' h
    | _ => cases hp
  | windedUp =>
    cases action with
    | notifyEvent bits =>
      cases hp
      rw [takeAction_stays hm hp' (Or.inl rfl) h]
      refine .wake (by simp) (Or.inr hs) (holds_single (l := .active) ht rfl rfl) ?_
      rw [orBits_notified (by rw [hlc]; rfl)]
      rfl
    | notifyTimeout =>
      cases hp
      exact removeFd_move hm ht hlc (by rw [hlc]; rfl) rfl (by simp) hp' h
    | notifyExit =>
      cases hp
      exact removeFd_move hm ht hlc (by rw [hlc]; rfl) rfl (by simp) hp' h
    | _ => cases hp
  | waitForRemovedThenActive =>
    cases action with
    | notifyAioRemoved =>
      cases hp
      exact hold_single (m := .active) hm ht hlc hp' rfl ht rfl rfl rfl (by simp) rfl rfl hbits
        (by decide) (fun _ => by decide) h
    | notifyExit =>
      cases hp
      exact hold_single (m := .waitForRemovedThenActive) hm ht hlc hp' rfl ht rfl rfl rfl (by simp)
        rfl rfl rfl (Nat.le_refl _) (fun he => by cases he) h
    | _ => cases hp
  | active =>
    cases action with
    | notifyEvent bits =>
      cases hp
      exact hold_single (m := .active) hm ht hlc hp' rfl ht hlc rfl rfl (by simp) rfl rfl rfl
        (Nat.le_refl _) (fun he => by cases he) h
    | notifyExit =>
      cases hp
      exact hold_single (m := .active) hm ht hlc hp' rfl ht rfl rfl rfl (by simp) rfl rfl rfl
        (Nat.le_refl _) (fun he => by cases he) h
    | executeCb =>
      cases hp
      rw [takeAction_stays hm hp' (Or.inr (Or.inl rfl)) h]
      exact .execute rfl hs (Or.inl (bitPlace_single (l := .executeCb) ht rfl)) rfl
    | _ => cases hp
  | executeCb =>
    cases action with
    | windUp =>
      cases hp
      exact .free (by simp) (takeAction_frees hm hp' (Or.inl rfl) h)
    | addSockFdMulti params =>
      cases hp
      rw [takeAction_switches hm hp' rfl rfl (Or.inl rfl) h]
      exact .enter (by simp) (Or.inr hs) (fun _ => rfl) (notified_zero (by rw [hlc]; rfl) rfl)
        (bitPlace_multi (l := .initial) rfl rfl) rfl
    | addChild child =>
      cases hp
      exact hold_single (m := .executeCb) hm ht hlc hp' rfl ht rfl rfl rfl (by simp) rfl rfl hbits
        (Nat.le_refl _) (fun he => by cases he) h
    | addSockFdSingle params =>
      cases hp
      exact hold_single (m := .waitForReinstall) hm ht hlc hp' rfl ht rfl rfl rfl (by simp) rfl rfl
        hbits (by decide) (fun he => by cases he) h
    | notifyExit =>
      cases hp
      exact hold_single (m := .executeCb) hm ht hlc hp' rfl ht rfl rfl rfl (by simp) rfl rfl rfl
        (Nat.le_refl _) (fun he => by cases he) h
    | notifyEvent bits =>
      cases hp
      exact hold_single (m := .executeCb) hm ht hlc hp' rfl ht rfl rfl rfl (by simp) rfl rfl rfl
        (Nat.le_refl _) (fun he => by cases he) h
    | hashLockWrite =>
      cases hp
      rw [takeAction_switches hm hp' rfl rfl (Or.inl rfl) h]
      exact .leave (by simp) (Or.inr hs) (fun _ => rfl) (notified_zero (by rw [hlc]; rfl) rfl) rfl
    | hashLockRead =>
      cases hp
      exact .free (by simp) (takeAction_frees hm hp' (Or.inr rfl) h)
    | _ => cases hp
  | waitForReinstall =>
    cases action with
    | windUp =>
      cases hp
      refine installFd_move hm ht (by rw [hlc]; rfl) rfl (by simp) rfl (Or.inr ⟨hs, rfl, ?_⟩) hp' h
      unfold Session.bitRank
      rw [hlc]
      rfl
    | notifyExit =>
      cases hp
      exact hold_single (m := .waitForReinstall) hm ht hlc hp' rfl ht rfl rfl rfl (by simp) rfl rfl
        rfl (Nat.le_refl _) (fun he => by cases he) h
    | notifyEvent bits =>
      cases hp
      exact hold_single (m := .waitForReinstall) hm ht hlc hp' rfl ht rfl rfl rfl (by simp) rfl rfl
        rfl (Nat.le_refl _) (fun he => by cases he) h
    | _ => cases hp
  | die => cases hp

/-! ## multi shot の一歩 -/

theorem MultiShot.installFd_cases (p : PtRun) (os : Int) :
    (fdNeedInstall p.session.fd ∧ os ≠ 0 ∧ (MultiShot.installFd p os).session
        = { p.session with
            eventBits := orBits p.session.eventBits esqEventBitError
            postOp := popNoOp
            lc := .multi .active })
      ∨ (¬ (fdNeedInstall p.session.fd ∧ os ≠ 0) ∧ (MultiShot.installFd p os).session
        = { p.session with postOp := popNoOp, lc := .multi .windedUp }) := by
  unfold MultiShot.installFd
  split
  · next hfd =>
    split
    · next hos => exact Or.inl ⟨hfd, hos, rfl⟩
    · next hos => exact Or.inr ⟨fun h => hos h.2, rfl⟩
  · next hfd => exact Or.inr ⟨fun h => hfd h.1, rfl⟩

theorem holds_multi {l : MultiShotLabel} (ht : t.sessionType = .multiSocketCb)
    (hlc : t.lc = .multi l) (hl : l.bitPlace.holds = true) : t.bitPlace.holds = true := by
  rw [bitPlace_multi ht hlc, hl]

theorem holdMulti_multi (hm : s.magic = true) (ht : s.sessionType = .multiSocketCb)
    (hlc : s.lc = .multi .executeCb) (hp : s.ready.step action os = .ok p)
    (hop : p.session.postOp = popNoOp) (hpt : p.session.sessionType = .multiSocketCb)
    (hplc : p.session.lc = .multi .executeCb) (hexec : action ≠ .executeCb)
    (hwind : action ≠ .windUp) (hbits : p.session.eventBits = s.eventBits)
    (hbits2 : p.session.eventBits2 = orBits s.eventBits2 (s.notified action os))
    (h : s.takeAction action os = .ok (r, t)) : BitMove s action os t := by
  rw [takeAction_stays hm hp (Or.inl hop) h]
  refine .holdMulti hexec hwind (bitPlace_multi ht hlc) (bitPlace_multi hpt hplc) hbits hbits2 ?_ ?_
  · unfold Session.bitRank
    rw [hlc, hplc]
  · unfold Session.owed
    rw [hlc]
    intro howed
    exact hwind (Option.some.inj howed).symm

theorem close_multi {l m : MultiShotLabel} (hm : s.magic = true)
    (ht : s.sessionType = .multiSocketCb) (hlc : s.lc = .multi l)
    (hp : s.ready.step action os = .ok p) (hop : p.session.postOp = popNoOp)
    (hpt : p.session.sessionType = .multiSocketCb) (hplc : p.session.lc = .multi m)
    (hl : l.bitPlace = .runningMulti ∨ l.bitPlace = .closing) (hl' : m.bitPlace = .closing)
    (hexec : action ≠ .executeCb) (hrank : m.bitRank ≤ l.bitRank)
    (howed : l.owed = some action → m.bitRank < l.bitRank)
    (h : s.takeAction action os = .ok (r, t)) : BitMove s action os t := by
  rw [takeAction_stays hm hp (Or.inl hop) h]
  refine .close hexec ?_ ((bitPlace_multi hpt hplc).trans hl') ?_ ?_
  · rw [bitPlace_multi ht hlc]
    exact hl
  · unfold Session.bitRank
    rw [hlc, hplc]
    exact hrank
  · unfold Session.bitRank Session.owed
    rw [hlc, hplc]
    exact howed

theorem queue_multi (hm : s.magic = true) (ht : s.sessionType = .multiSocketCb)
    (hlc : s.lc = .multi .initial) (hp : s.ready.step action os = .ok p)
    (hstay : p.session.staysPut) (hpt : p.session.sessionType = .multiSocketCb)
    (hplc : p.session.lc = .multi .waitForCpu) (hexec : action ≠ .executeCb)
    (hbits : action.bits = 0) (hbits' : p.session.eventBits = s.eventBits)
    (h : s.takeAction action os = .ok (r, t)) : BitMove s action os t := by
  rw [takeAction_stays hm hp hstay h]
  have hs := bitPlace_multi ht hlc
  refine .wait hexec (Or.inl hs) (Or.inl (bitPlace_multi hpt hplc)) ?_
    (notified_zero (by rw [hlc]; cases action <;> rfl) hbits) hbits'
  intro hre
  rw [hs] at hre
  cases hre

theorem hold_multi (hm : s.magic = true) (ht : s.sessionType = .multiSocketCb)
    (hlc : s.lc = .multi .active) (hp : s.ready.step action os = .ok p)
    (hop : p.session.postOp = popNoOp) (hpt : p.session.sessionType = .multiSocketCb)
    (hplc : p.session.lc = .multi .active) (hexec : action ≠ .executeCb)
    (hleave : action.leavesSingleShot = false)
    (hbits : p.session.eventBits = orBits s.eventBits action.bits)
    (h : s.takeAction action os = .ok (r, t)) : BitMove s action os t := by
  rw [takeAction_stays hm hp (Or.inl hop) h]
  refine .hold hexec hleave (by rw [bitPlace_multi ht hlc]; rfl) (holds_multi hpt hplc rfl) ?_ ?_ ?_
  · rw [orBits_notified (by rw [hlc]; cases action <;> rfl), hbits]
  · unfold Session.bitRank
    rw [hlc, hplc]
  · unfold Session.owed
    rw [hlc]
    intro howed
    exact absurd (Option.some.inj howed).symm hexec

theorem wake_multi (hm : s.magic = true) (ht : s.sessionType = .multiSocketCb)
    (hlc : s.lc = .multi .windedUp) (hp : s.ready.step action os = .ok p)
    (hop : p.session.postOp = popNoOp) (hpt : p.session.sessionType = .multiSocketCb)
    (hplc : p.session.lc = .multi .active) (hexec : action ≠ .executeCb)
    (hbits : p.session.eventBits = orBits s.eventBits action.bits)
    (h : s.takeAction action os = .ok (r, t)) : BitMove s action os t := by
  rw [takeAction_stays hm hp (Or.inl hop) h]
  refine .wake hexec (Or.inr (bitPlace_multi ht hlc)) (holds_multi hpt hplc rfl) ?_
  rw [orBits_notified (by rw [hlc]; cases action <;> rfl), hbits]

theorem step_multi (ht : s.sessionType = .multiSocketCb) (action : Action) (os : Int) :
    s.ready.step action os = esqPtOfMultiShotSocket s.ready action os := by
  unfold Session.step
  rw [show s.ready.sessionType = .multiSocketCb from ht]

theorem multi_move {l : MultiShotLabel} (hm : s.magic = true)
    (ht : s.sessionType = .multiSocketCb) (hlc : s.lc = .multi l)
    (hb2 : l.bitPlace = .runningMulti → s.eventBits2 < 2 ^ 16) (h : s.takeAction action os = .ok (r, t)) :
    BitMove s action os t := by
  obtain ⟨p, hp, -⟩ := takeAction_cases hm h
  have hp' := hp
  have hready : s.ready.lc = .multi l := hlc
  rw [step_multi ht] at hp
  unfold esqPtOfMultiShotSocket at hp
  rw [hready] at hp
  have hs := bitPlace_multi ht hlc
  cases l with
  | initial =>
    cases action with
    | windUp =>
      cases hp
      exact queue_multi hm ht hlc hp' (Or.inr (Or.inr (Or.inl rfl))) ht rfl (by simp) rfl rfl h
    | windUpRr =>
      cases hp
      exact queue_multi hm ht hlc hp' (Or.inr (Or.inr (Or.inr rfl))) ht rfl (by simp) rfl rfl h
    | _ => cases hp
  | waitForCpu =>
    cases action with
    | pickUp =>
      cases hp
      rcases MultiShot.installFd_cases { session := s.ready } os with ⟨hfd, hos, heq⟩ | ⟨hok, heq⟩
      · rw [takeAction_stays hm hp' (by rw [heq]; exact Or.inl rfl) h, heq]
        refine .wake (by simp) (Or.inl hs) (holds_multi (l := .active) ht rfl rfl) ?_
        rw [notified_of_fails (s := s) (by rw [hlc]; rfl) rfl ⟨hfd, hos⟩]
        rfl
      · rw [takeAction_stays hm hp' (by rw [heq]; exact Or.inl rfl) h, heq]
        refine .wait (by simp) (Or.inl hs) (Or.inr (bitPlace_multi (l := .windedUp) ht rfl)) ?_
          (notified_of_succeeds rfl hok) rfl
        intro hre
        rw [hs] at hre
        cases hre
    | _ => cases hp
  | windedUp =>
    cases action with
    | notifyEvent bits =>
      cases hp
      exact wake_multi hm ht hlc hp' rfl ht rfl (by simp) rfl h
    | notifyExit =>
      cases hp
      exact wake_multi hm ht hlc hp' rfl ht rfl (by simp) rfl h
    | _ => cases hp
  | active =>
    cases action with
    | notifyEvent bits =>
      cases hp
      exact hold_multi hm ht hlc hp' rfl ht rfl (by simp) rfl rfl h
    | notifyExit =>
      cases hp
      exact hold_multi hm ht hlc hp' rfl ht rfl (by simp) rfl rfl h
    | executeCb =>
      cases hp
      rw [takeAction_stays hm hp' (Or.inr (Or.inl rfl)) h]
      exact .execute rfl hs (Or.inr ⟨bitPlace_multi (l := .executeCb) ht rfl, rfl⟩) rfl
    | _ => cases hp
  | executeCb =>
    cases action with
    | windUp =>
      simp only [MultiShot.executeCb] at hp
      split at hp
      · split at hp
        · next hfd hnonzero =>
          cases hp
          rw [takeAction_stays hm hp' (Or.inl rfl) h]
          refine .reload rfl hs (notified_zero (by rw [hlc]; rfl) rfl)
            (bitPlace_multi (l := .active) ht rfl) hnonzero rfl ?_
          unfold Session.bitRank
          rw [hlc]
          exact (by decide : MultiShotLabel.active.bitRank < MultiShotLabel.executeCb.bitRank)
        · next hfd hzero =>
          cases hp
          rw [takeAction_stays hm hp' (Or.inl rfl) h]
          exact .rest rfl hs (notified_zero (by rw [hlc]; rfl) rfl)
            (bitPlace_multi (l := .windedUp) ht rfl) (not_not.mp hzero) rfl
      · cases hp
        exact .free (by simp) (takeAction_frees hm hp' (Or.inl rfl) h)
    | removeFd =>
      simp only [MultiShot.executeCb] at hp
      split at hp
      · next hfd =>
        split at hp
        · next hos =>
          cases hp
          refine holdMulti_multi hm ht hlc hp' rfl ht rfl (by simp) (by simp) rfl ?_ h
          rw [notified_of_fails (s := s) (by rw [hlc]; rfl) rfl ⟨hfd, hos⟩]
          rfl
        · cases hp
          exact close_multi (m := .waitForRemovedAndWindUp) hm ht hlc hp' rfl ht rfl (Or.inl rfl)
            rfl (by simp) (by decide) (fun he => by cases he) h
      · next hfd =>
        cases hp
        refine holdMulti_multi hm ht hlc hp' rfl ht rfl (by simp) (by simp) rfl ?_ h
        rw [notified_of_succeeds (s := s) rfl fun h => hfd h.1, orBits_zero (hb2 rfl)]
        rfl
    | notifyEvent bits =>
      cases hp
      refine holdMulti_multi hm ht hlc hp' rfl ht rfl (by simp) (by simp) rfl ?_ h
      rw [orBits_notified (by rw [hlc]; rfl)]
      rfl
    | notifyExit =>
      cases hp
      refine holdMulti_multi hm ht hlc hp' rfl ht rfl (by simp) (by simp) rfl ?_ h
      rw [orBits_notified (by rw [hlc]; rfl)]
      rfl
    | _ => cases hp
  | waitForRemovedAndWindUp =>
    cases action with
    | notifyAioRemoved =>
      cases hp
      exact close_multi (m := .waitForWindUp) hm ht hlc hp' rfl ht rfl (Or.inr rfl) rfl (by simp)
        (by decide) (fun he => by cases he) h
    | windUp =>
      cases hp
      exact close_multi (m := .waitForRemoved) hm ht hlc hp' rfl ht rfl (Or.inr rfl) rfl (by simp)
        (by decide) (fun _ => by decide) h
    | _ => cases hp
  | waitForRemoved =>
    cases action with
    | notifyAioRemoved =>
      cases hp
      exact .free (by simp) (takeAction_frees hm hp' (Or.inl rfl) h)
    | notifyExit =>
      cases hp
      exact close_multi (m := .waitForRemoved) hm ht hlc hp' rfl ht rfl (Or.inr rfl) rfl (by simp)
        (Nat.le_refl _) (fun he => by cases he) h
    | _ => cases hp
  | waitForWindUp =>
    cases action with
    | windUp =>
      cases hp
      exact .free (by simp) (takeAction_frees hm hp' (Or.inl rfl) h)
    | notifyExit =>
      cases hp
      exact close_multi (m := .waitForWindUp) hm ht hlc hp' rfl ht rfl (Or.inr rfl) rfl (by simp)
        (Nat.le_refl _) (fun he => by cases he) h
    | _ => cases hp
  | die => cases hp

/-! ## socket の session になる前の一歩 -/

theorem new_move (hm : s.magic = true) (ht : s.sessionType = .new) (hlc : s.lc = .start)
    (h : s.takeAction action os = .ok (r, t)) : BitMove s action os t := by
  obtain ⟨p, hp, -⟩ := takeAction_cases hm h
  have hp' := hp
  rw [show s.ready.step action os = esqPtOfNoFd s.ready action by
    unfold Session.step; rw [show s.ready.sessionType = .new from ht]] at hp
  have hs : s.bitPlace = .fresh := by
    unfold Session.bitPlace
    rw [ht]
  have hrunning : s.bitPlace = .running → action.leavesSingleShot = true := by
    intro hrun
    rw [hs] at hrun
    cases hrun
  cases action with
  | windUp =>
    cases hp
    exact .free nofun (takeAction_frees hm hp' (Or.inl rfl) h)
  | addSockFdMulti params =>
    cases hp
    rw [takeAction_switches hm hp' rfl rfl (Or.inl rfl) h]
    exact .enter nofun (Or.inl hs) hrunning (notified_zero (by rw [hlc]; rfl) rfl)
      (bitPlace_multi (l := .initial) rfl rfl) rfl
  | addSockFdSingle params =>
    cases hp
    rw [takeAction_switches hm hp' rfl rfl (Or.inl rfl) h]
    exact .enter nofun (Or.inl hs) hrunning (notified_zero (by rw [hlc]; rfl) rfl)
      (bitPlace_single (l := .initial) rfl rfl) rfl
  | hashLockRead =>
    cases hp
    rw [takeAction_switches hm hp' rfl rfl (Or.inl rfl) h]
    exact .leave nofun (Or.inl hs) hrunning (notified_zero (by rw [hlc]; rfl) rfl) rfl
  | hashLockWrite =>
    cases hp
    rw [takeAction_switches hm hp' rfl rfl (Or.inl rfl) h]
    exact .leave nofun (Or.inl hs) hrunning (notified_zero (by rw [hlc]; rfl) rfl) rfl
  | _ => cases hp

end

end Esq
