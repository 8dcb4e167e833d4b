import Esq.Session.EventBits

/-!
# callback が読む event bit

一つの socket の session の run を、届いた bit と読まれた bit の記録とともに追う。記録は C の欄ではない。

* `since` — 前の callback が始まってから届いた bit
* `unseen` — まだどの callback も読んでいない bit
* `carried` — 前の callback が読んで、`event_bits` に残っている bit

single shot は `event_bits` を消さないので、前の callback が読んだ bit も次の callback が読む。
callback の間や fd を仕掛け直す間に届いた bit は、次の event まで読まれない。

* `event_bits_fresh` — 読んだ bit が新しく、読まれない bit が無い、ちょうどの条件
-/

namespace Esq

open Infra

/-! ## run -/

structure BitInput where
  action : Action
  os : Int := 0
deriving DecidableEq, Repr

structure BitSession where
  session : Session
  since : Nat := 0
  unseen : Nat := 0
  carried : Nat := 0
deriving DecidableEq, Repr

def esqSessionGetEventBits (s : Session) : Nat := s.eventBits

namespace BitSession

def new (s : Session) : BitSession := { session := s }

def clears (b : BitSession) (action : Action) : Bool :=
  match b.session.bitPlace with
  | .fresh => true
  | .running => action.leavesSingleShot
  | .runningMulti => action = .windUp && b.since ≠ 0
  | _ => false

/-- 一歩の後の記録。`ACTION_EXECUTE_CB` で callback が始まる。 -/
def after (b : BitSession) (i : BitInput) (s : Session) : BitSession :=
  if i.action = .executeCb then {
    session := s
    since := 0
    unseen := b.unseen.ldiff (esqSessionGetEventBits s)
    carried := orBits b.carried b.since }
  else {
    session := s
    since := orBits b.since (b.session.notified i.action i.os)
    unseen := orBits b.unseen (b.session.notified i.action i.os)
    carried := if b.clears i.action then 0 else b.carried }

/-- 一歩。socket の session でなくなった後のことは追わない。 -/
def step (b : BitSession) (i : BitInput) : Option BitSession :=
  if b.session.magic then
    if b.session.bitPlace = .left then none
    else match b.session.takeAction i.action i.os with
      | .error _ => none
      | .ok (_, s) => some (b.after i s)
  else some b

/-- 始まる callback は、前の callback が始まってから届いた bit をちょうど読む。 -/
def ReadsFresh (b : BitSession) (i : BitInput) : Prop :=
  b.session.magic = true → i.action = .executeCb →
    ∀ t, b.step i = some t → esqSessionGetEventBits t.session = b.since

end BitSession

/-- 何も届かなくても、これから始まる callback が読む bit。 -/
def Session.promised (s : Session) : Nat :=
  match s.bitPlace with
  | .active => s.eventBits
  | .removing => s.eventBits
  | .running => s.eventBits
  | .reinstall => s.eventBits
  | .runningMulti => s.eventBits2
  | _ => 0

namespace BitSession

/-- 読まれていない bit は、解放を待つのでなければ、これから始まる callback が読む。 -/
def Kept (b : BitSession) : Prop :=
  b.session.magic = true → b.session.bitPlace ≠ .closing →
    orBits b.unseen b.session.promised = b.session.promised

/--
残っている bit はどれも届き直していて、fd を仕掛け直すときと型を切り替えるときは、callback が
始まってから何も届いていない。
-/
def good (b : BitSession) (i : BitInput) : Prop :=
  b.session.magic = true →
    match b.session.bitPlace with
    | .active => i.action = .executeCb → orBits b.carried b.since = b.since
    | .reinstall =>
      i.action = .windUp → ¬ (fdNeedInstall b.session.fd ∧ i.os ≠ 0) → b.since = 0
    | .running => i.action.leavesSingleShot = true → b.since = 0
    | _ => True

end BitSession

def Session.Starting (s : Session) : Prop :=
  s.magic = true ∧ (s.sessionType = .new ∧ s.lc = .start ∨ s.bitPlace = .queued ∧ s.eventBits = 0)

/-! ## 不変量 -/

inductive BitPhase (b : BitSession) : Prop where
  | fresh (ht : b.session.sessionType = .new) (hlc : b.session.lc = .start) (hs : b.since = 0)
    (hu : b.unseen = 0)
  /-- worker か event を待つ。届いた bit は残っていない -/
  | waiting (hplace : b.session.bitPlace = .queued ∨ b.session.bitPlace = .resting)
    (hs : b.since = 0) (hu : b.unseen = 0) (hbits : b.session.eventBits = b.carried)
    (hlt : b.carried < 2 ^ 16)
  | holding (hplace : b.session.bitPlace.holds = true) (hu : b.unseen = b.since)
    (hbits : b.session.eventBits = orBits b.carried b.since) (hlt : b.since < 2 ^ 16)
    (hlt' : b.carried < 2 ^ 16)
  | runningMulti (hplace : b.session.bitPlace = .runningMulti) (hu : b.unseen = b.since)
    (hbits : b.session.eventBits = b.carried) (hbits2 : b.session.eventBits2 = b.since)
    (hlt : b.since < 2 ^ 16) (hlt' : b.carried < 2 ^ 16)
  | closing (hplace : b.session.bitPlace = .closing) (hlt : b.unseen < 2 ^ 16)
  | left (hplace : b.session.bitPlace = .left) (hu : b.unseen = 0)

def BitInv (b : BitSession) : Prop := b.session.magic = true → BitPhase b

section

variable {b t : BitSession} {i : BitInput} {s : Session} {r : Int}

theorem bitInv_new (hs : s.Starting) : BitInv (.new s) := by
  intro hm
  rcases hs.2 with ⟨ht, hlc⟩ | ⟨hplace, hbits⟩
  · exact .fresh ht hlc rfl rfl
  · exact .waiting (Or.inl hplace) rfl rfl hbits (show 0 < 2 ^ 16 by decide)

theorem bitPlace_cases (hfresh : s.bitPlace ≠ .fresh) (hleft : s.bitPlace ≠ .left)
    (hastray : s.bitPlace ≠ .astray) :
    (∃ l, s.sessionType = .socketCb ∧ s.lc = .single l)
      ∨ ∃ l, s.sessionType = .multiSocketCb ∧ s.lc = .multi l := by
  unfold Session.bitPlace at hfresh hleft hastray
  cases ht : s.sessionType <;> cases hlc : s.lc <;> simp_all

theorem BitPhase.move (h : BitPhase b) (hm : b.session.magic = true)
    (hleft : b.session.bitPlace ≠ .left)
    (htake : b.session.takeAction i.action i.os = .ok (r, s)) :
    BitMove b.session i.action i.os s := by
  have hsocket : b.session.bitPlace ≠ .fresh → b.session.bitPlace ≠ .astray →
      (b.session.bitPlace ≠ .closing → b.session.eventBits < 2 ^ 16) →
      (b.session.bitPlace = .runningMulti → b.session.eventBits2 < 2 ^ 16) →
      BitMove b.session i.action i.os s := by
    intro hfresh hastray hlt hlt2
    rcases bitPlace_cases hfresh hleft hastray with ⟨l, ht, hlc⟩ | ⟨l, ht, hlc⟩
    · refine single_move hm ht hlc (hlt ?_) htake
      rw [bitPlace_single ht hlc]
      cases l <;> nofun
    · exact multi_move hm ht hlc (fun hl => hlt2 ((bitPlace_multi ht hlc).trans hl)) htake
  cases h with
  | fresh ht hlc hs hu => exact new_move hm ht hlc htake
  | waiting hplace hs hu hbits hlt =>
    rcases hplace with hplace | hplace <;> rw [hplace] at hsocket <;>
      exact hsocket nofun nofun (fun _ => hbits ▸ hlt) nofun
  | holding hplace hu hbits hlt hlt' =>
    refine hsocket ?_ ?_ (fun _ => hbits ▸ orBits_lt _ _) ?_
    · intro hp
      rw [hp] at hplace
      cases hplace
    · intro hp
      rw [hp] at hplace
      cases hplace
    · intro hp
      rw [hp] at hplace
      cases hplace
  | runningMulti hplace hu hbits hbits2 hlt hlt' =>
    rw [hplace] at hsocket
    exact hsocket nofun nofun (fun _ => hbits ▸ hlt') (fun _ => hbits2 ▸ hlt)
  | closing hplace =>
    rw [hplace] at hsocket
    exact hsocket nofun nofun (fun h => absurd rfl h) nofun
  | left hplace hu => exact absurd hplace hleft

theorem BitInv.cases_step (h : BitInv b) (hm : b.session.magic = true)
    (hstep : b.step i = some t) : ∃ s, BitMove b.session i.action i.os s ∧ t = b.after i s := by
  unfold BitSession.step at hstep
  rw [if_pos hm] at hstep
  split at hstep
  · cases hstep
  · next hleft =>
    split at hstep
    · cases hstep
    · next s htake =>
      cases hstep
      exact ⟨s, (h hm).move hm hleft htake, rfl⟩

theorem BitSession.after_still (hexec : i.action ≠ .executeCb) : b.after i s = {
    session := s
    since := orBits b.since (b.session.notified i.action i.os)
    unseen := orBits b.unseen (b.session.notified i.action i.os)
    carried := if b.clears i.action then 0 else b.carried } := if_neg hexec

theorem BitSession.after_execute (hexec : i.action = .executeCb) : b.after i s = {
    session := s
    since := 0
    unseen := b.unseen.ldiff (esqSessionGetEventBits s)
    carried := orBits b.carried b.since } := if_pos hexec

theorem ldiff_orBits {a c : Nat} (ha : a < 2 ^ 16) : a.ldiff (orBits c a) = 0 := by
  refine Nat.eq_of_testBit_eq fun k => ?_
  rw [Nat.testBit_ldiff, testBit_orBits, Nat.zero_testBit]
  by_cases hk : k < 16
  · cases a.testBit k <;> simp [hk]
  · have : a.testBit k = false :=
      Nat.testBit_lt_two_pow (Nat.lt_of_lt_of_le ha (Nat.pow_le_pow_right (by decide) (by omega)))
    simp [hk, this]

theorem BitPhase.of_holds (h : BitPhase b) (hp : b.session.bitPlace.holds = true) :
    b.unseen = b.since ∧ b.session.eventBits = orBits b.carried b.since ∧ b.since < 2 ^ 16
      ∧ b.carried < 2 ^ 16 := by
  cases h with
  | holding hplace hu hbits hlt hlt' => exact ⟨hu, hbits, hlt, hlt'⟩
  | fresh ht hlc =>
    unfold Session.bitPlace at hp
    rw [ht] at hp
    cases hp
  | waiting hplace => rcases hplace with hplace | hplace <;> rw [hplace] at hp <;> cases hp
  | runningMulti hplace => rw [hplace] at hp; cases hp
  | closing hplace => rw [hplace] at hp; cases hp
  | left hplace => rw [hplace] at hp; cases hp

theorem BitPhase.of_runningMulti (h : BitPhase b) (hp : b.session.bitPlace = .runningMulti) :
    b.unseen = b.since ∧ b.session.eventBits = b.carried ∧ b.session.eventBits2 = b.since
      ∧ b.since < 2 ^ 16 ∧ b.carried < 2 ^ 16 := by
  cases h with
  | runningMulti hplace hu hbits hbits2 hlt hlt' => exact ⟨hu, hbits, hbits2, hlt, hlt'⟩
  | fresh ht hlc =>
    unfold Session.bitPlace at hp
    rw [ht] at hp
    cases hp
  | waiting hplace => rcases hplace with hplace | hplace <;> rw [hplace] at hp <;> cases hp
  | holding hplace => rw [hp] at hplace; cases hplace
  | closing hplace => rw [hplace] at hp; cases hp
  | left hplace => rw [hplace] at hp; cases hp

theorem BitPhase.of_waiting (h : BitPhase b)
    (hp : b.session.bitPlace = .queued ∨ b.session.bitPlace = .resting) :
    b.since = 0 ∧ b.unseen = 0 ∧ b.session.eventBits = b.carried ∧ b.carried < 2 ^ 16 := by
  cases h with
  | waiting hplace hs hu hbits hlt => exact ⟨hs, hu, hbits, hlt⟩
  | fresh ht hlc =>
    unfold Session.bitPlace at hp
    rw [ht] at hp
    rcases hp with hp | hp <;> cases hp
  | holding hplace => rcases hp with hp | hp <;> rw [hp] at hplace <;> cases hplace
  | runningMulti hplace => rw [hplace] at hp; rcases hp with hp | hp <;> cases hp
  | closing hplace => rw [hplace] at hp; rcases hp with hp | hp <;> cases hp
  | left hplace => rw [hplace] at hp; rcases hp with hp | hp <;> cases hp

theorem BitPhase.of_fresh (h : BitPhase b) (hp : b.session.bitPlace = .fresh) :
    b.since = 0 ∧ b.unseen = 0 := by
  cases h with
  | fresh ht hlc hs hu => exact ⟨hs, hu⟩
  | waiting hplace => rcases hplace with hplace | hplace <;> rw [hplace] at hp <;> cases hp
  | holding hplace => rw [hp] at hplace; cases hplace
  | runningMulti hplace => rw [hplace] at hp; cases hp
  | closing hplace => rw [hplace] at hp; cases hp
  | left hplace => rw [hplace] at hp; cases hp

theorem BitPhase.nothing_to_leave (h : BitPhase b) (hgood : b.good i)
    (hm : b.session.magic = true)
    (hs : b.session.bitPlace = .fresh ∨ b.session.bitPlace = .running)
    (hleave : b.session.bitPlace = .running → i.action.leavesSingleShot = true) :
    b.since = 0 ∧ b.unseen = 0 := by
  rcases hs with hs | hs
  · exact h.of_fresh hs
  · replace hgood := hgood hm
    rw [hs] at hgood
    have hzero := hgood (hleave hs)
    obtain ⟨hu, -⟩ := h.of_holds (by rw [hs]; rfl)
    exact ⟨hzero, hu.trans hzero⟩

/-- **`good` な一歩は、記録と欄の関係を保つ。** -/
theorem BitInv.step_good (h : BitInv b) (hgood : b.good i) (hstep : b.step i = some t) :
    BitInv t := by
  by_cases hm : b.session.magic = true
  case neg =>
    unfold BitSession.step at hstep
    rw [if_neg hm] at hstep
    cases hstep
    exact h
  obtain ⟨s, hmove, rfl⟩ := h.cases_step hm hstep
  have hphase := h hm
  cases hmove with
  | free hexec ht =>
    intro hm'
    rw [BitSession.after_still hexec] at hm'
    rw [show s.magic = true from hm'] at ht
    cases ht
  | leave hexec hs hleave hno ht =>
    intro _
    obtain ⟨hsince, hunseen⟩ := hphase.nothing_to_leave hgood hm hs hleave
    rw [BitSession.after_still hexec, hno]
    refine .left ht ?_
    rw [hunseen]
    rfl
  | enter hexec hs hleave hno ht hbits =>
    intro _
    obtain ⟨hsince, hunseen⟩ := hphase.nothing_to_leave hgood hm hs hleave
    have hclears : b.clears i.action = true := by
      unfold BitSession.clears
      rcases hs with hs | hs
      · rw [hs]
      · rw [hs]
        exact hleave hs
    rw [BitSession.after_still hexec, hno, if_pos hclears, hsince, hunseen]
    exact .waiting (Or.inl ht) rfl rfl hbits (show 0 < 2 ^ 16 by decide)
  | wait hexec hs ht hrest hno hbits =>
    intro _
    have hzero : b.since = 0 ∧ b.unseen = 0 ∧ b.session.eventBits = b.carried
        ∧ b.carried < 2 ^ 16 := by
      rcases hs with hs | hs
      · exact hphase.of_waiting (Or.inl hs)
      · obtain ⟨hu, hb, -, hlt⟩ := hphase.of_holds (by rw [hs]; rfl)
        obtain ⟨hwind, hok⟩ := hrest hs
        replace hgood := hgood hm
        rw [hs] at hgood
        have hsince := hgood hwind hok
        rw [hsince, orBits_zero hlt] at hb
        exact ⟨hsince, hu.trans hsince, hb, hlt⟩
    have hclears : b.clears i.action = false := by
      unfold BitSession.clears
      rcases hs with hs | hs <;> rw [hs]
    obtain ⟨hsince, hunseen, hb, hlt⟩ := hzero
    rw [BitSession.after_still hexec, hno, hclears, hsince, hunseen]
    exact .waiting ht rfl rfl (hbits.trans hb) hlt
  | wake hexec hs ht hbits =>
    intro _
    obtain ⟨hsince, hunseen, hb, hlt⟩ := hphase.of_waiting hs
    have hclears : b.clears i.action = false := by
      unfold BitSession.clears
      rcases hs with hs | hs <;> rw [hs]
    rw [BitSession.after_still hexec, hclears, hsince, hunseen]
    refine .holding ht rfl ?_ (orBits_lt _ _) hlt
    show s.eventBits = orBits b.carried (orBits 0 _)
    rw [hbits, hb, ← orBits_assoc, orBits_zero hlt]
  | hold hexec hleave hs ht hbits hrank howed =>
    intro _
    obtain ⟨hu, hb, hlt, hlt'⟩ := hphase.of_holds hs
    have hclears : b.clears i.action = false := by
      unfold BitSession.clears
      cases hp : b.session.bitPlace <;> rw [hp] at hs <;> first | exact hleave | rfl | cases hs
    rw [BitSession.after_still hexec, hclears, hu]
    refine .holding ht rfl ?_ (orBits_lt _ _) hlt'
    show s.eventBits = orBits b.carried (orBits b.since _)
    rw [hbits, hb, orBits_assoc]
  | execute hexec hs ht hbits =>
    intro _
    obtain ⟨hu, hb, hlt, -⟩ := hphase.of_holds (by rw [hs]; rfl)
    rw [BitSession.after_execute hexec]
    have hunseen : b.unseen.ldiff (esqSessionGetEventBits s) = 0 := by
      unfold esqSessionGetEventBits
      rw [hbits, hb, hu, ldiff_orBits hlt]
    rw [hunseen]
    rcases ht with ht | ⟨ht, hbits2⟩
    · refine .holding (by show s.bitPlace.holds = true; rw [ht]; rfl) rfl ?_
        (show 0 < 2 ^ 16 by decide) (orBits_lt _ _)
      show s.eventBits = orBits (orBits b.carried b.since) 0
      rw [hbits, hb, orBits_zero (orBits_lt _ _)]
    · exact .runningMulti ht rfl (hbits.trans hb) hbits2 (show 0 < 2 ^ 16 by decide) (orBits_lt _ _)
  | holdMulti hexec hwind hs ht hbits hbits2 hrank howed =>
    intro _
    obtain ⟨hu, hb, hb2, hlt, hlt'⟩ := hphase.of_runningMulti hs
    have hclears : b.clears i.action = false := by
      unfold BitSession.clears
      rw [hs]
      simp [hwind]
    rw [BitSession.after_still hexec, hclears, hu]
    refine .runningMulti ht rfl (hbits.trans hb) ?_ (orBits_lt _ _) hlt'
    show s.eventBits2 = orBits b.since _
    rw [hbits2, hb2]
  | reload hexec hs hno ht hnonzero hbits hrank =>
    intro _
    obtain ⟨hu, hb, hb2, hlt, -⟩ := hphase.of_runningMulti hs
    have hclears : b.clears i.action = true := by
      unfold BitSession.clears
      rw [hs, ← hb2]
      simp [hexec, hnonzero]
    rw [BitSession.after_still (by rw [hexec]; nofun), hno, if_pos hclears, hu, orBits_zero hlt]
    refine .holding (by show s.bitPlace.holds = true; rw [ht]; rfl) rfl ?_ hlt
      (show 0 < 2 ^ 16 by decide)
    show s.eventBits = orBits 0 b.since
    rw [hbits, hb2, zero_orBits hlt]
  | rest hexec hs hno ht hzero hbits =>
    intro _
    obtain ⟨hu, hb, hb2, -, hlt'⟩ := hphase.of_runningMulti hs
    have hsince : b.since = 0 := hb2.symm.trans hzero
    have hclears : b.clears i.action = false := by
      unfold BitSession.clears
      rw [hs, hsince]
      simp
    rw [BitSession.after_still (by rw [hexec]; nofun), hno, hclears, hu, hsince]
    exact .waiting (Or.inr ht) rfl rfl (hbits.trans hb) hlt'
  | close hexec hs ht hrank howed =>
    intro _
    rw [BitSession.after_still hexec]
    exact .closing ht (orBits_lt _ _)

/-! ## 条件を満たさない一歩 -/

theorem BitInv.kept (h : BitInv b) : b.Kept := by
  intro hm hclosing
  have hself : ∀ a c : Nat, orBits a (orBits c a) = orBits c a := by
    intro a c
    refine Nat.eq_of_testBit_eq fun k => ?_
    rw [testBit_orBits, testBit_orBits]
    cases a.testBit k <;> cases c.testBit k <;> simp
  have hnone : b.unseen = 0 → b.session.promised = 0 →
      orBits b.unseen b.session.promised = b.session.promised := by
    intro hu hp
    rw [hu, hp]
    rfl
  unfold Session.promised at *
  cases h hm with
  | fresh ht hlc hs hu =>
    have hp : b.session.bitPlace = .fresh := by
      unfold Session.bitPlace
      rw [ht]
    rw [hp] at hnone ⊢
    exact hnone hu rfl
  | waiting hplace hs hu hbits hlt =>
    rcases hplace with hp | hp <;> rw [hp] at hnone ⊢ <;> exact hnone hu rfl
  | holding hplace hu hbits hlt hlt' =>
    cases hp : b.session.bitPlace <;> rw [hp] at hplace <;> cases hplace <;> dsimp only <;>
      rw [hu, hbits, hself]
  | runningMulti hplace hu hbits hbits2 hlt hlt' =>
    rw [hplace]
    dsimp only
    rw [hu, hbits2]
    have := hself b.since 0
    rwa [zero_orBits hlt] at this
  | closing hplace => exact absurd hplace hclosing
  | left hplace hu =>
    rw [hplace] at hnone ⊢
    exact hnone hu rfl

theorem BitInv.reads (h : BitInv b) (hgood : b.good i) : b.ReadsFresh i := by
  intro hm hexec t hstep
  obtain ⟨s, hmove, rfl⟩ := h.cases_step hm hstep
  rw [BitSession.after_execute hexec]
  obtain ⟨hs, hbits⟩ := hmove.of_execute hexec
  obtain ⟨-, hb, -, -⟩ := (h hm).of_holds (by rw [hs]; rfl)
  replace hgood := hgood hm
  rw [hs] at hgood
  show s.eventBits = b.since
  rw [hbits, hb, hgood hexec]

theorem takeAction_to {p : PtRun} {action : Action} {os : Int} (hm : s.magic = true)
    (hp : s.ready.step action os = .ok p) (hstay : p.session.staysPut) :
    ∃ r, s.takeAction action os = .ok (r, p.session) := by
  refine ⟨p.session.settle.1, ?_⟩
  rw [takeAction_stay hm hp hstay.not_switch]
  exact congrArg Except.ok (Prod.ext rfl hstay.settle)

theorem takeAction_switch_to {p p' : PtRun} {action : Action} {os : Int} (hm : s.magic = true)
    (hp : s.ready.step action os = .ok p) (hop : p.session.postOp = popSwitchSessionType)
    (hp' : ({ p.session with lc := .start } : Session).ready.step action os = .ok p')
    (hstay : p'.session.staysPut) : ∃ r, s.takeAction action os = .ok (r, p'.session) := by
  refine ⟨p'.session.settle.1, ?_⟩
  rw [takeAction_switch hm hp (by rw [hop]; rfl) hp']
  exact congrArg Except.ok (Prod.ext rfl hstay.settle)

theorem takeAction_executes (hm : s.magic = true) (hs : s.bitPlace = .active) (os : Int) :
    ∃ r t, s.takeAction .executeCb os = .ok (r, t) := by
  rcases bitPlace_cases (by rw [hs]; nofun) (by rw [hs]; nofun) (by rw [hs]; nofun) with
    ⟨l, ht, hlc⟩ | ⟨l, ht, hlc⟩
  · rw [bitPlace_single ht hlc] at hs
    cases l <;> cases hs
    have hp : s.ready.step .executeCb os = SingleShot.active { session := s.ready } .executeCb := by
      rw [step_single ht]
      unfold esqPtOfSingleShotSocket
      rw [show s.ready.lc = _ from hlc]
    obtain ⟨r, h⟩ := takeAction_to hm (hp.trans rfl) (Or.inr (Or.inl rfl))
    exact ⟨r, _, h⟩
  · rw [bitPlace_multi ht hlc] at hs
    cases l <;> cases hs
    have hp : s.ready.step .executeCb os = MultiShot.active { session := s.ready } .executeCb := by
      rw [step_multi ht]
      unfold esqPtOfMultiShotSocket
      rw [show s.ready.lc = _ from hlc]
    obtain ⟨r, h⟩ := takeAction_to hm (hp.trans rfl) (Or.inr (Or.inl rfl))
    exact ⟨r, _, h⟩

theorem single_of_bitPlace (hs : s.bitPlace = .running ∨ s.bitPlace = .reinstall) :
    s.sessionType = .socketCb ∧ (s.bitPlace = .running → s.lc = .single .executeCb)
      ∧ (s.bitPlace = .reinstall → s.lc = .single .waitForReinstall) := by
  rcases bitPlace_cases (by rcases hs with hs | hs <;> rw [hs] <;> nofun)
    (by rcases hs with hs | hs <;> rw [hs] <;> nofun)
    (by rcases hs with hs | hs <;> rw [hs] <;> nofun) with ⟨l, ht, hlc⟩ | ⟨l, ht, hlc⟩
  · rw [bitPlace_single ht hlc] at hs ⊢
    cases l <;> simp_all [SingleShotLabel.bitPlace]
  · rw [bitPlace_multi ht hlc] at hs
    cases l <;> rcases hs with hs | hs <;> cases hs

theorem takeAction_reinstalls (hm : s.magic = true) (hs : s.bitPlace = .reinstall) {os : Int}
    (hok : ¬ (fdNeedInstall s.fd ∧ os ≠ 0)) :
    ∃ r t, s.takeAction .windUp os = .ok (r, t) ∧ t.magic = true ∧ t.bitPlace = .resting := by
  obtain ⟨ht, -, hlc⟩ := single_of_bitPlace (Or.inr hs)
  have hp : s.ready.step .windUp os = .ok (SingleShot.installFd { session := s.ready } os) := by
    rw [step_single ht]
    unfold esqPtOfSingleShotSocket
    rw [show s.ready.lc = _ from hlc hs]
    rfl
  rcases SingleShot.installFd_cases { session := s.ready } os with ⟨hfd, hos, -⟩ | ⟨-, heq⟩
  · exact absurd ⟨hfd, hos⟩ hok
  · have hstay : (SingleShot.installFd { session := s.ready } os).session.staysPut := by
      rw [heq]
      exact Or.inl rfl
    obtain ⟨r, h⟩ := takeAction_to hm hp hstay
    rw [heq] at h
    exact ⟨r, _, h, hm, bitPlace_single (l := .windedUp) ht rfl⟩

theorem takeAction_leaves {action : Action} (hm : s.magic = true) (hs : s.bitPlace = .running)
    (hleave : action.leavesSingleShot = true) (os : Int) :
    ∃ r t, s.takeAction action os = .ok (r, t) ∧ t.magic = true
      ∧ (t.bitPlace = .queued ∨ t.bitPlace = .left) := by
  obtain ⟨ht, hlc, -⟩ := single_of_bitPlace (Or.inl hs)
  have hp : s.ready.step action os = SingleShot.executeCb { session := s.ready } action := by
    rw [step_single ht]
    unfold esqPtOfSingleShotSocket
    rw [show s.ready.lc = _ from hlc hs]
  cases action <;> cases hleave
  · obtain ⟨r, h⟩ := takeAction_switch_to hm (hp.trans rfl) rfl rfl (Or.inl rfl)
    exact ⟨r, _, h, hm, Or.inl (bitPlace_multi (l := .initial) rfl rfl)⟩
  · obtain ⟨r, h⟩ := takeAction_switch_to hm (hp.trans rfl) rfl rfl (Or.inl rfl)
    exact ⟨r, _, h, hm, Or.inr rfl⟩

theorem orBits_left_ne_zero {a c : Nat} (ha : a < 2 ^ 16) (hne : a ≠ 0) : orBits a c ≠ 0 := by
  intro hzero
  refine hne (Nat.eq_of_testBit_eq fun k => ?_)
  have hk : (orBits a c).testBit k = Nat.testBit 0 k := by rw [hzero]
  rw [testBit_orBits, Nat.zero_testBit] at hk
  rw [Nat.zero_testBit]
  by_cases hlt : k < 16
  · simp [hlt] at hk
    exact hk.1
  · exact Nat.testBit_lt_two_pow
      (Nat.lt_of_lt_of_le ha (Nat.pow_le_pow_right (by decide) (by omega)))

theorem not_kept (hm : t.session.magic = true)
    (hp : t.session.bitPlace = .queued ∨ t.session.bitPlace = .resting
      ∨ t.session.bitPlace = .left) (hlt : t.unseen < 2 ^ 16) (hu : t.unseen ≠ 0) : ¬ t.Kept := by
  intro hkept
  have hkept' := hkept hm (by rcases hp with hp | hp | hp <;> rw [hp] <;> nofun)
  have hzero : t.session.promised = 0 := by
    unfold Session.promised
    rcases hp with hp | hp | hp <;> rw [hp]
  rw [hzero, orBits_zero hlt] at hkept'
  exact hu hkept'

/-- **条件を満たさない一歩は、新しくない bit を読むか、bit を失う。** -/
theorem BitInv.step_bad (h : BitInv b) (hbad : ¬ b.good i) (hreads : b.ReadsFresh i) :
    ∃ t, b.step i = some t ∧ ¬ t.Kept := by
  obtain ⟨hm, hbad⟩ := Classical.not_imp.mp hbad
  have hstep : ∀ {r s}, b.session.takeAction i.action i.os = .ok (r, s) →
      b.session.bitPlace ≠ .left → b.step i = some (b.after i s) := by
    intro r s htake hleft
    unfold BitSession.step
    rw [if_pos hm, if_neg hleft, htake]
  -- 次の callback を待たない所に移ると、読まれていない bit が残る
  have hlost : ∀ {r s}, b.session.takeAction i.action i.os = .ok (r, s) → s.magic = true →
      b.session.bitPlace = .running ∨ b.session.bitPlace = .reinstall →
      (s.bitPlace = .queued ∨ s.bitPlace = .resting ∨ s.bitPlace = .left) →
      i.action ≠ .executeCb → b.since ≠ 0 → ∃ t, b.step i = some t ∧ ¬ t.Kept := by
    intro r s htake hm' hs hp hexec hsince
    have hholds : b.session.bitPlace.holds = true := by
      rcases hs with hs | hs <;> rw [hs] <;> rfl
    obtain ⟨hu, -, hlt, -⟩ := (h hm).of_holds hholds
    refine ⟨_, hstep htake (by rcases hs with hs | hs <;> rw [hs] <;> nofun), ?_⟩
    rw [BitSession.after_still hexec]
    refine not_kept hm' hp (orBits_lt _ _) ?_
    show orBits b.unseen _ ≠ 0
    rw [hu]
    exact orBits_left_ne_zero hlt hsince
  split at hbad
  · next hs =>
    obtain ⟨hexec, hbad⟩ := Classical.not_imp.mp hbad
    obtain ⟨r, s, htake⟩ := takeAction_executes hm hs i.os
    rw [← hexec] at htake
    have hstep' := hstep htake (by rw [hs]; nofun)
    have hread := hreads hm hexec _ hstep'
    rw [BitSession.after_execute hexec] at hread
    obtain ⟨-, hb, -, -⟩ := (h hm).of_holds (by rw [hs]; rfl)
    obtain ⟨-, hbits⟩ := ((h hm).move hm (by rw [hs]; nofun) htake).of_execute hexec
    rw [show esqSessionGetEventBits _ = s.eventBits from rfl, hbits, hb] at hread
    exact absurd hread hbad
  · next hs =>
    obtain ⟨hwind, hbad⟩ := Classical.not_imp.mp hbad
    obtain ⟨hok, hsince⟩ := Classical.not_imp.mp hbad
    obtain ⟨r, s, htake, hm', hp⟩ := takeAction_reinstalls hm hs hok
    rw [← hwind] at htake
    exact hlost htake hm' (Or.inr hs) (Or.inr (Or.inl hp)) (by rw [hwind]; nofun) hsince
  · next hs =>
    obtain ⟨hleave, hsince⟩ := Classical.not_imp.mp hbad
    obtain ⟨r, s, htake, hm', hp⟩ := takeAction_leaves hm hs hleave i.os
    refine hlost htake hm' (Or.inl hs) (hp.imp_right Or.inr) ?_ hsince
    intro hexec
    rw [hexec] at hleave
    cases hleave
  · exact absurd trivial hbad

theorem bits_fresh_iff (h : BitInv b) (is : List BitInput) :
    Throughout BitSession.step BitSession.Kept b is ∧ Along BitSession.step BitSession.ReadsFresh b is
      ↔ Along BitSession.step BitSession.good b is :=
  throughout_and_along_iff (fun _ _ _ h (_ : True) hgood hstep => h.step_good hgood hstep)
    (fun _ _ h _ hgood => h.reads hgood) (fun _ _ h _ hbad hreads => h.step_bad hbad hreads)
    (fun _ h => h.kept) h along_true

end

/-! ## 届いた bit はいつか読まれる -/

section

variable {b : BitSession} {e : Execution BitSession.step b}

/-- 渡すはずの action は、いつか渡される。 -/
def Owing (e : Execution BitSession.step b) (m : Nat) : Prop :=
  ∃ i, e.input m = some i ∧ (e.state m).session.owed = some i.action

def FairBits (e : Execution BitSession.step b) : Prop :=
  ∀ n, (e.state n).session.magic = true → (e.state n).session.owed ≠ none → ∃ m, n ≤ m ∧ Owing e m

/-- 始まる callback が `bit` を読むか、session が解放される。 -/
def SeenOrFreed (e : Execution BitSession.step b) (bit m : Nat) : Prop :=
  (e.state (m + 1)).session.magic = false
    ∨ ∃ i, e.input m = some i ∧ i.action = .executeCb ∧ (e.state m).session.magic = true
      ∧ (esqSessionGetEventBits (e.state (m + 1)).session).testBit bit = true

/-- 読まれていない bit があるときの様子。 -/
def Awaits (b : BitSession) (bit : Nat) : Prop :=
  BitInv b ∧ b.session.magic = true ∧ b.unseen.testBit bit = true

theorem Awaits.not_zero {bit : Nat} (h : Awaits b bit) : b.unseen ≠ 0 := by
  intro hzero
  have := h.2.2
  rw [hzero, Nat.zero_testBit] at this
  cases this

theorem BitPhase.unseen_lt (h : BitPhase b) : b.unseen < 2 ^ 16 := by
  cases h with
  | fresh ht hlc hs hu => rw [hu]; decide
  | waiting hplace hs hu => rw [hu]; decide
  | holding hplace hu hbits hlt => rw [hu]; exact hlt
  | runningMulti hplace hu hbits hbits2 hlt => rw [hu]; exact hlt
  | closing hplace hlt => exact hlt
  | left hplace hu => rw [hu]; decide

theorem Awaits.lt {bit : Nat} (h : Awaits b bit) : bit < 16 := by
  by_contra hge
  have := h.2.2
  rw [Nat.testBit_lt_two_pow (Nat.lt_of_lt_of_le (h.1 h.2.1).unseen_lt
    (Nat.pow_le_pow_right (by decide) (Nat.le_of_not_lt hge)))] at this
  cases this

theorem Awaits.testBit_after {bit bits : Nat} (h : Awaits b bit) :
    (orBits b.unseen bits).testBit bit = true := by
  rw [testBit_orBits, h.2.2]
  simp [h.lt]

/-- **読まれていない bit は、一歩で読まれるか、解放されるか、順位を増やさずに残る。** -/
theorem Awaits.step {bit : Nat} {i : BitInput} {t : BitSession} (h : Awaits b bit)
    (hgood : b.good i) (hstep : b.step i = some t) :
    (t.session.magic = false
        ∨ i.action = .executeCb ∧ (esqSessionGetEventBits t.session).testBit bit = true)
      ∨ Awaits t bit ∧ t.session.bitRank ≤ b.session.bitRank
        ∧ (b.session.owed = some i.action → t.session.bitRank < b.session.bitRank) := by
  have hinv := h.1.step_good hgood hstep
  obtain ⟨s, hmove, rfl⟩ := h.1.cases_step h.2.1 hstep
  have hphase := h.1 h.2.1
  have hsession : (b.after i s).session = s := by
    unfold BitSession.after
    split <;> rfl
  by_cases hfree : s.magic = true
  case neg =>
    refine Or.inl (Or.inl ?_)
    rw [hsession]
    exact Bool.eq_false_iff.mpr hfree
  have hkeep : i.action ≠ .executeCb → Awaits (b.after i s) bit := by
    intro hexec
    refine ⟨hinv, ?_⟩
    rw [BitSession.after_still hexec]
    exact ⟨hfree, h.testBit_after⟩
  rw [hsession]
  cases hmove with
  | free hexec ht => rw [ht] at hfree; cases hfree
  | leave hexec hs hleave =>
    exact absurd (hphase.nothing_to_leave hgood h.2.1 hs hleave).2 h.not_zero
  | enter hexec hs hleave =>
    exact absurd (hphase.nothing_to_leave hgood h.2.1 hs hleave).2 h.not_zero
  | wait hexec hs ht hrest =>
    rcases hs with hs | hs
    · exact absurd (hphase.of_waiting (Or.inl hs)).2.1 h.not_zero
    · obtain ⟨hwind, hok⟩ := hrest hs
      replace hgood := hgood h.2.1
      rw [hs] at hgood
      obtain ⟨hu, -⟩ := hphase.of_holds (by rw [hs]; rfl)
      exact absurd (hu.trans (hgood hwind hok)) h.not_zero
  | wake hexec hs => exact absurd (hphase.of_waiting hs).2.1 h.not_zero
  | hold hexec hleave hs ht hbits hrank howed => exact Or.inr ⟨hkeep hexec, hrank, howed⟩
  | execute hexec hs ht hbits =>
    obtain ⟨hu, hb, -, -⟩ := hphase.of_holds (by rw [hs]; rfl)
    refine Or.inl (Or.inr ⟨hexec, ?_⟩)
    show s.eventBits.testBit bit = true
    rw [hbits, hb, testBit_orBits, ← hu, h.2.2]
    simp [h.lt]
  | holdMulti hexec hwind hs ht hbits hbits2 hrank howed =>
    exact Or.inr ⟨hkeep hexec, hrank, fun h => absurd h howed⟩
  | reload hwind hs hno ht hnonzero hbits hrank =>
    exact Or.inr ⟨hkeep (by rw [hwind]; nofun), Nat.le_of_lt hrank, fun _ => hrank⟩
  | rest hwind hs hno ht hzero =>
    obtain ⟨hu, -, hb2, -⟩ := hphase.of_runningMulti hs
    exact absurd (hu.trans (hb2.symm.trans hzero)) h.not_zero
  | close hexec hs ht hrank howed => exact Or.inr ⟨hkeep hexec, hrank, howed⟩

theorem Awaits.owed {bit : Nat} (h : Awaits b bit) : b.session.owed ≠ none := by
  have hplace : b.session.bitPlace.holds = true ∨ b.session.bitPlace = .runningMulti
      ∨ b.session.bitPlace = .closing := by
    cases h.1 h.2.1 with
    | fresh ht hlc hs hu => exact absurd hu h.not_zero
    | waiting hplace hs hu => exact absurd hu h.not_zero
    | holding hplace => exact Or.inl hplace
    | runningMulti hplace => exact Or.inr (Or.inl hplace)
    | closing hplace => exact Or.inr (Or.inr hplace)
    | left hplace hu => exact absurd hu h.not_zero
  have hne : ∀ p : BitPlace, p.holds = false → p ≠ .runningMulti → p ≠ .closing →
      b.session.bitPlace ≠ p := by
    rintro p hp hr hc rfl
    rcases hplace with hh | hh | hh
    · rw [hp] at hh
      cases hh
    · exact hr hh
    · exact hc hh
  rcases bitPlace_cases (hne _ rfl nofun nofun) (hne _ rfl nofun nofun)
    (hne _ rfl nofun nofun) with ⟨l, ht, hlc⟩ | ⟨l, ht, hlc⟩
  · rw [bitPlace_single ht hlc] at hplace
    unfold Session.owed
    rw [hlc]
    cases l <;> simp [SingleShotLabel.bitPlace, SingleShotLabel.owed, BitPlace.holds] at hplace ⊢
  · rw [bitPlace_multi ht hlc] at hplace
    unfold Session.owed
    rw [hlc]
    cases l <;> simp [MultiShotLabel.bitPlace, MultiShotLabel.owed, BitPlace.holds] at hplace ⊢

/-- **届いた bit は、解放されなければ、いつか始まる callback が読む。** -/
theorem eventually_seen (hinv : BitInv b) (hgood : e.Along BitSession.good) (hfair : FairBits e)
    {n bit : Nat} (hu : (e.state n).unseen.testBit bit = true) :
    ∃ m, n ≤ m ∧ SeenOrFreed e bit m := by
  have hall : ∀ n, BitInv (e.state n) :=
    e.invariant (fun _ _ _ h hgood hstep => h.step_good hgood hstep) hinv hgood
  by_cases hm : (e.state n).session.magic = true
  case neg =>
    refine ⟨n, Nat.le_refl n, Or.inl ?_⟩
    cases hi : e.input n with
    | none => rw [e.idle n hi]; exact Bool.eq_false_iff.mpr hm
    | some i =>
      have hstep := e.next n i hi
      unfold BitSession.step at hstep
      rw [if_neg hm] at hstep
      rw [← Option.some.inj hstep]
      exact Bool.eq_false_iff.mpr hm
  have hstep : ∀ m i, e.input m = some i → Awaits (e.state m) bit → SeenOrFreed e bit m
      ∨ Awaits (e.state (m + 1)) bit
        ∧ (e.state (m + 1)).session.bitRank ≤ (e.state m).session.bitRank
        ∧ ((e.state m).session.owed = some i.action →
          (e.state (m + 1)).session.bitRank < (e.state m).session.bitRank) := by
    intro m i hi h
    rcases h.step (hgood m i hi) (e.next m i hi) with (hfree | ⟨hexec, hread⟩) | hrest
    · exact Or.inl (Or.inl hfree)
    · exact Or.inl (Or.inr ⟨i, hi, hexec, h.2.1, hread⟩)
    · exact Or.inr hrest
  refine eventually_of_rank (fun m => Awaits (e.state m) bit) (SeenOrFreed e bit) (Owing e)
    (fun m => (e.state m).session.bitRank) ?_ ?_ ?_ ⟨hall n, hm, hu⟩
  · intro m h
    cases hi : e.input m with
    | none => rw [e.idle m hi]; exact Or.inr ⟨h, Nat.le_refl _⟩
    | some i => exact (hstep m i hi h).imp_right fun h => ⟨h.1, h.2.1⟩
  · rintro m h ⟨i, hi, howed⟩
    exact (hstep m i hi h).imp_right fun h => ⟨h.1, h.2.2 howed⟩
  · intro m h
    exact hfair m h.2.1 h.owed

end

/-! ## まとめ -/

/--
**socket の session のどの run でも、callback の読む bit が新しく、読まれない bit が無いのは、
どの一歩も `good` であるとき、かつそのときに限る。このとき、届いた bit は、渡すはずの action が
いつか渡される限り、いつか始まる callback が読むか、session が解放される。**
-/
theorem event_bits_fresh {s : Session} (hs : s.Starting) :
    (∀ is, Throughout BitSession.step BitSession.Kept (.new s) is
        ∧ Along BitSession.step BitSession.ReadsFresh (.new s) is
          ↔ Along BitSession.step BitSession.good (.new s) is)
      ∧ ∀ e : Execution BitSession.step (.new s), e.Along BitSession.good → FairBits e →
        ∀ n bit, (e.state n).unseen.testBit bit = true → ∃ m, n ≤ m ∧ SeenOrFreed e bit m := by
  refine ⟨bits_fresh_iff (bitInv_new hs), ?_⟩
  intro e hgood hfair n bit hu
  exact eventually_seen (bitInv_new hs) hgood hfair hu

theorem starting_new : esqSessionNew.Starting := ⟨rfl, Or.inl ⟨rfl, rfl⟩⟩

/-- 一度だけ READ を受けて終わる single shot の session。 -/
def sampleBitRun : List BitInput :=
  [⟨.addSockFdSingle { fd := 5, cb := 1 }, 0⟩, ⟨.windUp, 0⟩, ⟨.pickUp, 0⟩,
    ⟨.notifyEvent esqEventBitRead, 0⟩, ⟨.executeCb, 0⟩, ⟨.windUp, 0⟩]

theorem sampleBitRun_good :
    Along BitSession.step BitSession.good (.new esqSessionNew) sampleBitRun := by
  refine along_cons_of_eq rfl (fun _ => trivial) (along_cons_of_eq rfl (fun _ => trivial)
    (along_cons_of_eq rfl (fun _ => trivial) (along_cons_of_eq rfl (fun _ => trivial)
      (along_cons_of_eq rfl (fun _ _ => rfl) (along_cons_of_eq rfl ?_ trivial)))))
  intro _ hleave
  cases hleave

theorem event_bits_fresh_sample :
    Throughout BitSession.step BitSession.Kept (.new esqSessionNew) sampleBitRun
      ∧ Along BitSession.step BitSession.ReadsFresh (.new esqSessionNew) sampleBitRun :=
  ((event_bits_fresh starting_new).1 sampleBitRun).mpr sampleBitRun_good

/-- READ を読んだ callback が fd を仕掛け直し、次は timeout だけが届く。 -/
def staleBitRun : List BitInput :=
  [⟨.addSockFdSingle { fd := 5, cb := 1 }, 0⟩, ⟨.windUp, 0⟩, ⟨.pickUp, 0⟩,
    ⟨.notifyEvent esqEventBitRead, 0⟩, ⟨.executeCb, 0⟩,
    ⟨.addSockFdSingle { fd := 5, cb := 1, timeouts := 10 }, 0⟩, ⟨.windUp, 0⟩, ⟨.notifyTimeout, 0⟩,
    ⟨.notifyAioRemoved, 0⟩]

/-- **仕掛け直した single shot の callback は、前の callback が読んだ READ をまた読む。** -/
theorem single_shot_reads_stale_bit : ¬ ∀ is : List BitInput,
    Along BitSession.step BitSession.ReadsFresh (.new esqSessionNew) is := by
  intro h
  have hlast : ((runFrom BitSession.step (.new esqSessionNew) staleBitRun).bind fun b =>
      (b.step ⟨.executeCb, 0⟩).map fun t =>
        (b.session.magic, b.since, esqSessionGetEventBits t.session))
      = some (true, esqEventBitTimeout, orBits esqEventBitRead esqEventBitTimeout) := by
    decide +kernel
  obtain ⟨b, hb, hlast⟩ := Option.bind_eq_some_iff.mp hlast
  obtain ⟨t, ht, hlast⟩ := Option.map_eq_some_iff.mp hlast
  obtain ⟨hm, hlast⟩ := Prod.mk.inj hlast
  obtain ⟨hsince, hread⟩ := Prod.mk.inj hlast
  have hfresh := ((h (staleBitRun ++ [⟨.executeCb, 0⟩])).of_append hb).1 hm rfl t ht
  rw [hread, hsince] at hfresh
  cases hfresh

end Esq
