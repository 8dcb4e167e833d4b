import Esq.Session.Family

/-!
# 子の完了の callback と解放はちょうど一度である

`Esq.Session.Family` の操作を任意の順に並べた実行を考え、その横で次を数える。

* `calls x` — `x` が作られてから、完了の callback が呼ばれた回数
* `frees x` — `x` が作られてから、`free(x)` が呼ばれた回数

親が終わったか（`parentEnded`）、親が終わった子を引き取ったか（`collected`）も記す。どれも
`Heap.log` と操作から読むもので、C の欄ではない。

action は malloc されている session に任意の順で届く。終わってから解放されるまでの session に
届いてもよい。子を持つ、親を持つという要求だけは、終わっていない session に限る。

* `children_done_once` — どの実行でも、子は高々一度だけ callback を呼ばれて解放され、
  終わった上で親が引き取るか終わるかすれば、ちょうど一度である。親が生きている間は、
  親の二つの list のちょうど一方にいる
-/

namespace Esq

open Infra

/-! ## 実行 -/

/-- `esq_session_bundle_child` で決まった親と callback。 -/
structure Bundle where
  parent : Nat
  cb : Nat
deriving DecidableEq, Repr

/-- `Heap` と、その横で数えたもの。`heap.log` は直前の操作の記録である。 -/
structure FamilyRun where
  heap : Heap
  calls : Nat → Nat
  frees : Nat → Nat
  bundle : Nat → Option Bundle
  parentEnded : Nat → Bool
  collected : Nat → Bool

def FamilyRun.init : FamilyRun where
  heap := Heap.init
  calls _ := 0
  frees _ := 0
  bundle _ := none
  parentEnded _ := false
  collected _ := false

/-- `esq_start_mco_session` が番地 `x` に session を作って動かし始める。 -/
def Heap.esqStartMcoSession (h : Heap) (x : Nat) : Except Fault Heap := do
  let (_, h) ← ((h.esqSessionNew x).esqSessionInitMcoParams x).esqSessionTakeAction x
    { action := .windUp }
  .ok h

/-- `esq_session_bundle_child` が渡す action である。 -/
def Action.bundles : Action → Bool
  | .setParent _ _ => true
  | .addChild _ => true
  | _ => false

inductive FamilyOp where
  /-- `esq_session_new` が番地 `x` を返す -/
  | new (x : Nat)
  /-- `esq_start_mco_session` -/
  | startMco (x : Nat)
  /-- session に action を渡す -/
  | act (x : Nat) (a : ChassisAction)
  /-- `esq_session_bundle_child` -/
  | bundle (parent child cb : Nat)
  /-- `esq_execute_session_done_cb` -/
  | collect (p : Nat)
deriving DecidableEq, Repr

def ChassisEvent.callsOf (y : Nat) : ChassisEvent → Bool
  | .doneCb z _ => z = y
  | _ => false

def ChassisEvent.freesOf (y : Nat) : ChassisEvent → Bool
  | .free z => z = y
  | _ => false

def ChassisEvent.endsOf (y : Nat) : ChassisEvent → Bool
  | .ended z => z = y
  | _ => false

namespace FamilyRun

def observe (s : FamilyRun) (h : Heap) : FamilyRun :=
  { s with
    heap := h
    calls := fun y => s.calls y + h.log.countP (ChassisEvent.callsOf y)
    frees := fun y => s.frees y + h.log.countP (ChassisEvent.freesOf y)
    parentEnded := fun y => s.parentEnded y ||
      (s.bundle y).any fun b => h.log.any (ChassisEvent.endsOf b.parent) }

def quiet (s : FamilyRun) : Heap := { s.heap with log := [] }

def forget (s : FamilyRun) (x : Nat) : FamilyRun :=
  { s with
    calls := Function.update s.calls x 0
    frees := Function.update s.frees x 0
    bundle := Function.update s.bundle x none
    parentEnded := Function.update s.parentEnded x false
    collected := Function.update s.collected x false }

def markCollected (s : FamilyRun) (p : Nat) : FamilyRun :=
  { s with collected := fun y => s.collected y ||
      (s.heap.ended y && (s.bundle y).any fun b => b.parent = p) }

end FamilyRun

/-- 一つの操作。プロセスが終わるか、許されない操作なら `none`。 -/
def familyStep (s : FamilyRun) : FamilyOp → Option FamilyRun
  | .new x =>
    if s.heap.allocated x then none
    else some ((s.forget x).observe (s.quiet.esqSessionNew x))
  | .startMco x =>
    if s.heap.allocated x then none
    else match s.quiet.esqStartMcoSession x with
      | .error _ => none
      | .ok h => some ((s.forget x).observe h)
  | .act x a =>
    if s.heap.allocated x && !a.action.bundles then
      match s.quiet.esqSessionTakeAction x a with
      | .error _ => none
      | .ok (_, h) => some (s.observe h)
    else none
  | .bundle p c cb =>
    if s.heap.Live p ∧ s.heap.Live c then
      match s.quiet.esqSessionBundleChild p c cb with
      | .error _ => none
      | .ok (_, h) => some { s.observe h with bundle := Function.update s.bundle c (some ⟨p, cb⟩) }
    else none
  | .collect p =>
    if s.heap.Live p then
      match s.quiet.esqExecuteSessionDoneCb p with
      | .error _ => none
      | .ok h => some ((s.markCollected p).observe h)
    else none

/-! ## 性質 -/

structure ChildrenOnce (s : FamilyRun) : Prop where
  /-- callback も解放も高々一度である -/
  once : ∀ x b, s.bundle x = some b → s.calls x ≤ 1 ∧ s.frees x ≤ 1
  /-- 終わった子は、親が引き取るか終わるかすれば、ちょうど一度ずつである -/
  settled : ∀ x b, s.bundle x = some b → s.heap.ended x = true →
    s.parentEnded x = true ∨ s.collected x = true →
    s.frees x = 1 ∧ s.calls x = if b.cb = 0 then 0 else 1
  /-- 親が生きている間は、親の二つの list のちょうど一方に一度だけいる -/
  listed : ∀ x b, s.bundle x = some b → s.parentEnded x = false → s.collected x = false →
    (s.heap.ended x = false ∧ (s.heap.children b.parent).count x = 1
        ∧ x ∉ s.heap.finishedChildren b.parent) ∨
      (s.heap.ended x = true ∧ x ∉ s.heap.children b.parent
        ∧ (s.heap.finishedChildren b.parent).count x = 1)

/-! ## 不変量 -/

structure RunInv (s : FamilyRun) : Prop where
  kindred : Kindred s.heap
  tidy : AllTidy s.heap
  fresh : ∀ x, s.heap.allocated x = true → s.calls x = 0 ∧ s.frees x = 0
  plain : ∀ x, s.bundle x = none → s.parentEnded x = false ∧ s.collected x = false
  running : ∀ x b, s.bundle x = some b → s.heap.Live x →
    (s.heap.session x).haveParentSession = true ∧ (s.heap.session x).sessionDoneCb = b.cb
      ∧ s.collected x = false
      ∧ (s.heap.session x).parentSession = if s.parentEnded x then none else some b.parent
  waiting : ∀ x b, s.bundle x = some b → s.heap.allocated x = true → s.heap.ended x = true →
    (s.heap.session x).sessionDoneCb = b.cb ∧ s.parentEnded x = false ∧ s.collected x = false
      ∧ x ∈ s.heap.finishedChildren b.parent
  gone : ∀ x b, s.bundle x = some b → s.heap.allocated x = false →
    s.heap.ended x = true ∧ s.frees x = 1 ∧ (s.calls x = if b.cb = 0 then 0 else 1)
      ∧ (s.parentEnded x = true ∨ s.collected x = true)

theorem runInv_init : RunInv FamilyRun.init where
  kindred := kindred_init
  tidy := allTidy_init
  fresh _ h := by cases h
  plain _ _ := ⟨rfl, rfl⟩
  running _ _ h := by cases h
  waiting _ _ h := by cases h
  gone _ _ h := by cases h

theorem RunInv.childrenOnce {s : FamilyRun} (h : RunInv s) : ChildrenOnce s where
  once x b hb := by
    cases ha : s.heap.allocated x with
    | true =>
      obtain ⟨hc, hf⟩ := h.fresh x ha
      rw [hc, hf]
      exact ⟨Nat.zero_le 1, Nat.zero_le 1⟩
    | false =>
      obtain ⟨-, hf, hc, -⟩ := h.gone x b hb ha
      rw [hf, hc]
      refine ⟨?_, le_rfl⟩
      split
      · exact Nat.zero_le 1
      · exact le_rfl
  settled x b hb he hdone := by
    cases ha : s.heap.allocated x with
    | true =>
      obtain ⟨-, hp, hc, -⟩ := h.waiting x b hb ha he
      rw [hp, hc] at hdone
      simp at hdone
    | false =>
      obtain ⟨-, hf, hc, -⟩ := h.gone x b hb ha
      exact ⟨hf, hc⟩
  listed x b hb hp hc := by
    cases ha : s.heap.allocated x with
    | false =>
      obtain ⟨-, -, -, hdone⟩ := h.gone x b hb ha
      rw [hp, hc] at hdone
      simp at hdone
    | true =>
      cases he : s.heap.ended x with
      | false =>
        obtain ⟨-, -, -, hparent⟩ := h.running x b hb ⟨ha, he⟩
        rw [hp, if_neg Bool.false_ne_true] at hparent
        have hmem := (h.kindred.parent x b.parent ⟨ha, he⟩ hparent).2
        exact Or.inl ⟨rfl, List.count_eq_one_of_mem (h.kindred.childNodup _) hmem,
          h.kindred.notMem_finished ⟨ha, he⟩⟩
      | true =>
        obtain ⟨-, -, -, hmem⟩ := h.waiting x b hb ha he
        exact Or.inr ⟨rfl, h.kindred.notMem_children he,
          List.count_eq_one_of_mem (h.kindred.finishedNodup _) hmem⟩

/-! ## 記録を数える -/

section

variable {h : Heap} {es : List ChassisEvent} {x y p : Nat}

theorem countP_of_quiet {q : ChassisEvent → Bool} (hq : ∀ e, e.Quiet → q e = false)
    (hes : Quiet es) : es.countP q = 0 :=
  List.countP_eq_zero.mpr fun e he => by rw [hq e (hes e he)]; exact Bool.false_ne_true

theorem any_of_quiet {q : ChassisEvent → Bool} (hq : ∀ e, e.Quiet → q e = false)
    (hes : Quiet es) : es.any q = false :=
  List.any_eq_false.mpr fun e he => by rw [hq e (hes e he)]; exact Bool.false_ne_true

theorem ChassisEvent.callsOf_quiet (e : ChassisEvent) (he : e.Quiet) : e.callsOf y = false := by
  cases e <;> first | rfl | cases he

theorem ChassisEvent.freesOf_quiet (e : ChassisEvent) (he : e.Quiet) : e.freesOf y = false := by
  cases e <;> first | rfl | cases he

theorem ChassisEvent.endsOf_quiet (e : ChassisEvent) (he : e.Quiet) : e.endsOf y = false := by
  cases e <;> first | rfl | cases he

theorem countP_farewell_calls : (h.farewell p).countP (ChassisEvent.callsOf y)
    = if p = y ∧ (h.session p).sessionDoneCb ≠ 0 then 1 else 0 := by
  unfold Heap.farewell
  by_cases hcb : (h.session p).sessionDoneCb = 0
  · simp [hcb, ChassisEvent.callsOf]
  · rw [if_pos hcb]
    by_cases hy : p = y
    · subst hy
      simp [hcb, ChassisEvent.callsOf]
    · simp [hy, ChassisEvent.callsOf]

theorem countP_farewell_frees :
    (h.farewell p).countP (ChassisEvent.freesOf y) = if p = y then 1 else 0 := by
  unfold Heap.farewell
  by_cases hcb : (h.session p).sessionDoneCb = 0
  · by_cases hy : p = y <;> simp [hcb, hy, ChassisEvent.freesOf]
  · by_cases hy : p = y <;> simp [hcb, hy, ChassisEvent.freesOf]

theorem any_farewell_ends : (h.farewell p).any (ChassisEvent.endsOf y) = false := by
  unfold Heap.farewell
  by_cases hcb : (h.session p).sessionDoneCb = 0 <;> simp [hcb, ChassisEvent.endsOf]

theorem countP_flatMap_farewell {ps : List Nat} {q : ChassisEvent → Bool} {k : Nat}
    (hn : ps.Nodup) (hother : ∀ z, z ≠ y → (h.farewell z).countP q = 0)
    (hself : (h.farewell y).countP q = k) :
    (ps.flatMap h.farewell).countP q = if y ∈ ps then k else 0 := by
  induction ps with
  | nil => rfl
  | cons z ps ih =>
    obtain ⟨hz, hn⟩ := List.nodup_cons.mp hn
    rw [List.flatMap_cons, List.countP_append, ih hn]
    by_cases hzy : z = y
    · subst hzy
      rw [hself, if_neg hz, if_pos List.mem_cons_self, Nat.add_zero]
    · rw [hother z hzy, Nat.zero_add]
      simp only [List.mem_cons, Ne.symm hzy, false_or]

theorem countP_calls_flatMap {ps : List Nat} (hn : ps.Nodup) :
    (ps.flatMap h.farewell).countP (ChassisEvent.callsOf y)
      = if y ∈ ps then (if (h.session y).sessionDoneCb = 0 then 0 else 1) else 0 := by
  refine countP_flatMap_farewell hn (fun z hz => ?_) ?_
  · rw [countP_farewell_calls, if_neg fun hand => hz hand.1]
  · rw [countP_farewell_calls]
    by_cases hcb : (h.session y).sessionDoneCb = 0 <;> simp [hcb]

theorem countP_frees_flatMap {ps : List Nat} (hn : ps.Nodup) :
    (ps.flatMap h.farewell).countP (ChassisEvent.freesOf y) = if y ∈ ps then 1 else 0 := by
  refine countP_flatMap_farewell hn (fun z hz => ?_) ?_
  · rw [countP_farewell_frees, if_neg hz]
  · rw [countP_farewell_frees, if_pos rfl]

theorem any_ends_flatMap (ps : List Nat) :
    (ps.flatMap h.farewell).any (ChassisEvent.endsOf y) = false := by
  rw [List.any_flatMap]
  exact List.any_eq_false.mpr fun z _ => by rw [any_farewell_ends]; exact Bool.false_ne_true

end

/-! ## 一つの操作 -/

section

variable {s : FamilyRun} {h h' : Heap} {x y p c : Nat}

theorem FamilyRun.observe_quiet (hq : Quiet h.log) : s.observe h = { s with heap := h } := by
  unfold FamilyRun.observe
  simp only [countP_of_quiet ChassisEvent.callsOf_quiet hq,
    countP_of_quiet ChassisEvent.freesOf_quiet hq, any_of_quiet ChassisEvent.endsOf_quiet hq,
    Nat.add_zero]
  congr 1
  funext y
  cases s.bundle y <;> simp

theorem RunInv.kindred_quiet (hi : RunInv s) : Kindred s.quiet :=
  hi.kindred.same ⟨fun _ => rfl, rfl, rfl⟩

theorem RunInv.same (hi : RunInv s) (hs : SameFamily s.heap h) (ht : AllTidy h)
    (hq : Quiet h.log) : RunInv (s.observe h) := by
  rw [FamilyRun.observe_quiet hq]
  constructor
  case kindred => exact hi.kindred.same hs
  case tidy => exact ht
  case fresh =>
    intro x hx
    rw [hs.allocated] at hx
    exact hi.fresh x hx
  case plain => exact hi.plain
  case running =>
    intro x b hb hl
    dsimp only at hb hl ⊢
    rw [hs.haveParentSession, hs.sessionDoneCb, hs.parentSession]
    exact hi.running x b hb (hs.live_iff.mp hl)
  case waiting =>
    intro x b hb ha he
    dsimp only at hb ha he ⊢
    rw [hs.allocated] at ha
    rw [hs.ended] at he
    rw [hs.sessionDoneCb, hs.finishedChildren]
    exact hi.waiting x b hb ha he
  case gone =>
    intro x b hb ha
    dsimp only at hb ha ⊢
    rw [hs.allocated] at ha
    rw [hs.ended]
    exact hi.gone x b hb ha

theorem Freed.counts (hk : Kindred h) (hl : h.Live x) (hf : Freed h h' x) (hq : Quiet h.log)
    (y : Nat) : h'.log.countP (ChassisEvent.callsOf y)
        = (if y ∈ h.finishedChildren x ∨ y = x ∧ (h.session x).parentSession = none then
            (if (h.session y).sessionDoneCb = 0 then 0 else 1) else 0)
      ∧ h'.log.countP (ChassisEvent.freesOf y)
        = (if y ∈ h.finishedChildren x ∨ y = x ∧ (h.session x).parentSession = none then 1 else 0)
      ∧ h'.log.any (ChassisEvent.endsOf y) = decide (x = y) := by
  obtain ⟨es, hes, hlog⟩ := hf.log
  have hx := hk.notMem_finished (p := x) hl
  rw [hlog]
  refine ⟨?_, ?_, ?_⟩
  · rw [List.countP_append, countP_of_quiet ChassisEvent.callsOf_quiet hq, List.countP_cons_of_neg
      (by exact Bool.false_ne_true), List.countP_append, countP_calls_flatMap (hk.finishedNodup x)]
    by_cases hp : (h.session x).parentSession = none
    · rw [if_pos hp, countP_farewell_calls]
      by_cases hy : y = x
      · subst hy
        simp [hx, hp]
      · simp [hy, Ne.symm hy]
    · rw [if_neg hp, countP_of_quiet ChassisEvent.callsOf_quiet hes]
      simp [hp]
  · rw [List.countP_append, countP_of_quiet ChassisEvent.freesOf_quiet hq, List.countP_cons_of_neg
      (by exact Bool.false_ne_true), List.countP_append, countP_frees_flatMap (hk.finishedNodup x)]
    by_cases hp : (h.session x).parentSession = none
    · rw [if_pos hp, countP_farewell_frees]
      by_cases hy : y = x
      · subst hy
        simp [hx, hp]
      · simp [hy, Ne.symm hy]
    · rw [if_neg hp, countP_of_quiet ChassisEvent.freesOf_quiet hes]
      simp [hp]
  · rw [List.any_append, any_of_quiet ChassisEvent.endsOf_quiet hq, List.any_cons,
      List.any_append, any_ends_flatMap]
    have hrest : (if (h.session x).parentSession = none then h.farewell x else es).any
        (ChassisEvent.endsOf y) = false := by
      split
      · exact any_farewell_ends
      · exact any_of_quiet ChassisEvent.endsOf_quiet hes
    rw [hrest]
    simp [ChassisEvent.endsOf]

theorem FamilyRun.observe_parentEnded {b : Bundle} (hb : s.bundle y = some b) :
    (s.observe h).parentEnded y
      = (s.parentEnded y || h.log.any (ChassisEvent.endsOf b.parent)) := by
  unfold FamilyRun.observe
  dsimp only
  rw [hb, Option.any_some]

theorem RunInv.finished_parent {b : Bundle} (hi : RunInv s) (hb : s.bundle y = some b)
    (hm : y ∈ s.heap.finishedChildren p) : b.parent = p := by
  obtain ⟨-, hr, -, hparent⟩ := hi.kindred.finished p y hm
  obtain ⟨-, -, -, hwaits⟩ := hi.waiting y b hb hr.allocated hr.ended
  exact (hi.kindred.finished_parent_eq hwaits hparent).symm

section

variable {b : Bundle} (hi : RunInv s) (hs : SameFamily s.heap h) (hq : Quiet h.log)
  (hl : h.Live x) (hf : Freed h h' x) (hb : s.bundle y = some b)
include hi hs hq hl hf hb

theorem RunInv.freed_running (hy : h'.Live y) :
    (h'.session y).haveParentSession = true ∧ (h'.session y).sessionDoneCb = b.cb
      ∧ s.collected y = false ∧ (h'.session y).parentSession
        = if (s.observe h').parentEnded y then none else some b.parent := by
  have hk := hi.kindred.same hs
  obtain ⟨hy, hyx⟩ := (hf.live_iff hk).mp hy
  obtain ⟨hhave, hcb, hcollected, hparent⟩ := hi.running y b hb (hs.live_iff.mp hy)
  obtain ⟨-, hh, hc, hpar⟩ := hf.parentSession_of_ne hyx (hk.notMem_finished hy)
  refine ⟨hh.trans ((hs.haveParentSession y).trans hhave),
    hc.trans ((hs.sessionDoneCb y).trans hcb), hcollected, ?_⟩
  rw [← hs.parentSession] at hparent
  rw [hpar, hparent, FamilyRun.observe_parentEnded hb, (hf.counts hk hl hq b.parent).2.2]
  cases hended : s.parentEnded y with
  | true => simp
  | false =>
    rw [hended, if_neg Bool.false_ne_true] at hparent
    have hiff : y ∈ h.children x ↔ x = b.parent := by
      constructor
      · exact fun hm => (hk.parent_eq hm hparent).symm
      · rintro rfl
        exact (hk.parent y _ hy hparent).2
    simp [hiff]

theorem RunInv.freed_waiting (ha : h'.allocated y = true) (he : h'.ended y = true) :
    (h'.session y).sessionDoneCb = b.cb ∧ (s.observe h').parentEnded y = false
      ∧ s.collected y = false ∧ y ∈ h'.finishedChildren b.parent := by
  have hk := hi.kindred.same hs
  have hmem := hf.mem_finishedChildren_iff hk hl b.parent y
  rw [hf.allocated] at ha
  split at ha
  · cases ha
  next hn =>
  rw [FamilyRun.observe_parentEnded hb, (hf.counts hk hl hq b.parent).2.2]
  by_cases hyx : y = x
  -- いま終わった子には、生きた親がいる
  · subst hyx
    obtain ⟨-, hcb, hcollected, hparent⟩ := hi.running y b hb (hs.live_iff.mp hl)
    have hsome : (h.session y).parentSession ≠ none := fun hnone => hn (Or.inr ⟨rfl, hnone⟩)
    rw [← hs.parentSession] at hparent
    have hended : s.parentEnded y = false := by
      by_contra hended
      rw [if_pos (Bool.eq_true_of_not_eq_false hended)] at hparent
      exact hsome hparent
    rw [hended, if_neg Bool.false_ne_true] at hparent
    have hne : b.parent ≠ y := by
      intro hby
      have hm := (hk.parent y b.parent hl hparent).2
      rw [hby] at hm
      exact hk.apart y hm
    refine ⟨?_, ?_, hcollected, hmem.mpr ⟨hne, Or.inr ⟨rfl, hparent⟩⟩⟩
    · exact (Session.sessionDoneCb_of_kin (hf.self hsome)).trans ((hs.sessionDoneCb y).trans hcb)
    · rw [hended]
      simpa using hne.symm
  -- 前から待っていた子の親は `x` ではない
  · rw [hf.ended, Function.update_of_ne hyx, hs.ended] at he
    rw [hs.allocated] at ha
    obtain ⟨hcb, hended, hcollected, hwaits⟩ := hi.waiting y b hb ha he
    have hyf : y ∉ h.finishedChildren x := fun hm => hn (Or.inl hm)
    rw [← hs.finishedChildren] at hwaits
    have hne : b.parent ≠ x := by
      rintro hbx
      exact hyf (hbx ▸ hwaits)
    obtain ⟨-, -, hc, -⟩ := hf.parentSession_of_ne hyx hyf
    refine ⟨hc.trans ((hs.sessionDoneCb y).trans hcb), ?_, hcollected,
      hmem.mpr ⟨hne, Or.inl hwaits⟩⟩
    rw [hended]
    simpa using hne.symm

theorem RunInv.freed_gone (ha : h'.allocated y = false) :
    h'.ended y = true ∧ (s.observe h').frees y = 1
      ∧ ((s.observe h').calls y = if b.cb = 0 then 0 else 1)
      ∧ ((s.observe h').parentEnded y = true ∨ s.collected y = true) := by
  have hk := hi.kindred.same hs
  obtain ⟨hcalls, hfrees, -⟩ := hf.counts hk hl hq y
  rw [FamilyRun.observe_parentEnded hb, (hf.counts hk hl hq b.parent).2.2, hf.ended]
  show _ ∧ s.frees y + h'.log.countP (ChassisEvent.freesOf y) = 1
    ∧ (s.calls y + h'.log.countP (ChassisEvent.callsOf y) = if b.cb = 0 then 0 else 1) ∧ _
  rw [hcalls, hfrees]
  rw [hf.allocated] at ha
  split at ha
  next hn =>
    rw [if_pos hn, if_pos hn]
    by_cases hyx : y = x
    -- いま終わって解放された子の親は、先に終わっている
    · subst hyx
      have hnone : (h.session y).parentSession = none :=
        (hn.resolve_left (hk.notMem_finished hl)).2
      obtain ⟨-, hcb, -, hparent⟩ := hi.running y b hb (hs.live_iff.mp hl)
      obtain ⟨hc, hfr⟩ := hi.fresh y (hs.live_iff.mp hl).1
      have hended : s.parentEnded y = true := by
        by_contra hended
        rw [if_neg hended, ← hs.parentSession, hnone] at hparent
        cases hparent
      rw [Function.update_self, hc, hfr, hended, hs.sessionDoneCb, hcb]
      simp
    -- `x` の終わった子の list にいた子は、いま終わった `x` の子である
    · have hm : y ∈ s.heap.finishedChildren x := by
        rw [← hs.finishedChildren]
        exact hn.resolve_right fun hand => hyx hand.1
      obtain ⟨-, hr, -, -⟩ := hi.kindred.finished x y hm
      obtain ⟨hcb, -, -, -⟩ := hi.waiting y b hb hr.allocated hr.ended
      obtain ⟨hc, hfr⟩ := hi.fresh y hr.allocated
      rw [Function.update_of_ne hyx, hs.ended, hr.ended, hc, hfr, hs.sessionDoneCb, hcb,
        hi.finished_parent hb hm]
      simp
  -- 前に解放された子には、何も起きない
  next hn =>
    rw [if_neg hn, if_neg hn]
    rw [hs.allocated] at ha
    obtain ⟨hended, hfr, hc, hdone⟩ := hi.gone y b hb ha
    have hyx : y ≠ x := by
      rintro rfl
      rw [(hs.live_iff.mp hl).1] at ha
      cases ha
    rw [Function.update_of_ne hyx, hs.ended, hfr, hc]
    refine ⟨hended, rfl, rfl, hdone.imp (fun hp => ?_) id⟩
    rw [hp]
    rfl

end

theorem RunInv.freed (hi : RunInv s) (hs : SameFamily s.heap h) (ht : AllTidy h')
    (hq : Quiet h.log) (hl : h.Live x) (hf : Freed h h' x) : RunInv (s.observe h') where
  kindred := hf.kindred (hi.kindred.same hs) hl
  tidy := ht
  fresh y hy := by
    obtain ⟨hcalls, hfrees, -⟩ := hf.counts (hi.kindred.same hs) hl hq y
    have hy : h'.allocated y = true := hy
    rw [hf.allocated] at hy
    split at hy
    · cases hy
    next hn =>
      rw [hs.allocated] at hy
      obtain ⟨hc, hfr⟩ := hi.fresh y hy
      unfold FamilyRun.observe
      dsimp only
      rw [hcalls, hfrees, if_neg hn, if_neg hn, hc, hfr]
      exact ⟨rfl, rfl⟩
  plain y hb := by
    have hb : s.bundle y = none := hb
    obtain ⟨hended, hcollected⟩ := hi.plain y hb
    refine ⟨?_, hcollected⟩
    unfold FamilyRun.observe
    dsimp only
    rw [hended, hb]
    rfl
  running _ _ hb hy := hi.freed_running hs hq hl hf hb hy
  waiting _ _ hb ha he := hi.freed_waiting hs hq hl hf hb ha he
  gone _ _ hb ha := hi.freed_gone hs hq hl hf hb ha

theorem RunInv.new (hi : RunInv s) (hx : s.heap.allocated x = false) :
    RunInv ((s.forget x).observe (s.quiet.esqSessionNew x)) := by
  have hk := hi.kindred.new hx
  have hother : ∀ y, y ≠ x → (s.heap.esqSessionNew x).session y = s.heap.session y := fun y hy => by
    rw [Heap.session_esqSessionNew, if_neg hy]
  have hall : ∀ y, y ≠ x → (s.heap.esqSessionNew x).allocated y = s.heap.allocated y :=
    fun y hy => Function.update_of_ne hy ..
  have hend : ∀ y, y ≠ x → (s.heap.esqSessionNew x).ended y = s.heap.ended y :=
    fun y hy => Function.update_of_ne hy ..
  have hbundle : ∀ y b, (s.forget x).bundle y = some b → y ≠ x ∧ s.bundle y = some b := by
    intro y b hb
    by_cases hy : y = x
    · subst hy
      rw [show (s.forget y).bundle y = none from Function.update_self ..] at hb
      cases hb
    · exact ⟨hy, (Function.update_of_ne hy _ _).symm.trans hb⟩
  rw [FamilyRun.observe_quiet (fun _ he => absurd he List.not_mem_nil)]
  unfold FamilyRun.forget
  constructor
  case kindred => exact hk.same ⟨fun _ => rfl, rfl, rfl⟩
  case tidy =>
    intro y hy
    show ((s.heap.esqSessionNew x).cell y).Tidy
    unfold Heap.esqSessionNew
    by_cases hyx : y = x
    · subst hyx
      dsimp only
      rw [Function.update_self]
      trivial
    · dsimp only
      rw [Function.update_of_ne hyx]
      exact hi.tidy y (((Heap.live_esqSessionNew y).mp hy).resolve_left hyx)
  case fresh =>
    intro y hy
    by_cases hyx : y = x
    · subst hyx
      exact ⟨Function.update_self .., Function.update_self ..⟩
    · dsimp only
      rw [Function.update_of_ne hyx, Function.update_of_ne hyx]
      exact hi.fresh y ((hall y hyx).symm.trans hy)
  case plain =>
    intro y hb
    by_cases hyx : y = x
    · subst hyx
      exact ⟨Function.update_self .., Function.update_self ..⟩
    · dsimp only at hb ⊢
      rw [Function.update_of_ne hyx] at hb
      rw [Function.update_of_ne hyx, Function.update_of_ne hyx]
      exact hi.plain y hb
  case running =>
    intro y b hb hl
    obtain ⟨hyx, hb⟩ := hbundle y b hb
    have hl' := ((Heap.live_esqSessionNew y).mp hl).resolve_left hyx
    simp only [Function.update_of_ne hyx,
      show (s.quiet.esqSessionNew x).session y = s.heap.session y from hother y hyx]
    exact hi.running y b hb hl'
  case waiting =>
    intro y b hb ha he
    obtain ⟨hyx, hb⟩ := hbundle y b hb
    obtain ⟨h1, h2, h3, h4⟩ := hi.waiting y b hb ((hall y hyx).symm.trans ha)
      ((hend y hyx).symm.trans he)
    have hpx : b.parent ≠ x := by
      rintro hpx
      have := (hi.kindred.finished b.parent y h4).1.1
      rw [hpx, hx] at this
      cases this
    dsimp only
    rw [Function.update_of_ne hyx, Function.update_of_ne hyx,
      show (s.quiet.esqSessionNew x).session y = s.heap.session y from hother y hyx]
    refine ⟨h1, h2, h3, ?_⟩
    unfold Heap.finishedChildren
    rw [show (s.quiet.esqSessionNew x).session b.parent = s.heap.session b.parent from
      hother b.parent hpx]
    exact h4
  case gone =>
    intro y b hb ha
    obtain ⟨hyx, hb⟩ := hbundle y b hb
    dsimp only
    rw [Function.update_of_ne hyx, Function.update_of_ne hyx, Function.update_of_ne hyx,
      Function.update_of_ne hyx, show (s.quiet.esqSessionNew x).ended y = _ from hend y hyx]
    exact hi.gone y b hb ((hall y hyx).symm.trans ha)

theorem Heap.startMco_spec (hr : h.esqStartMcoSession x = .ok h') :
    SameFamily (h.esqSessionNew x) h' ∧ (∃ es : List Effect, h'.log = h.log ++ es.map (.list x))
      ∧ (h'.cell x).Tidy ∧ ∀ y, y ≠ x → h'.cell y = h.cell y := by
  obtain ⟨d, es, hact, htidy, hop, hkin⟩ : ∃ d es, (SessionCell.new.withSession fun s =>
      { s with sessionType := .mco }).act { action := .windUp } = .ok (d, es) ∧ d.Tidy
        ∧ d.session.postOp = popReturnValue ∧ d.session.kin = Esq.esqSessionNew.kin :=
    ⟨_, _, rfl, McoLabel.noConfusion, rfl, rfl⟩
  have hcell : ((h.esqSessionNew x).esqSessionInitMcoParams x).cell x
      = SessionCell.new.withSession fun s => { s with sessionType := .mco } := by
    unfold Heap.esqSessionInitMcoParams
    rw [Heap.cell_modify, if_pos rfl]
    unfold Heap.esqSessionNew
    dsimp only
    rw [Function.update_self]
  have hsession := congrArg SessionCell.session hcell
  have hne : ∀ y, y ≠ x →
      ((h.esqSessionNew x).esqSessionInitMcoParams x).cell y = h.cell y := by
    intro y hy
    unfold Heap.esqSessionInitMcoParams
    rw [Heap.cell_modify, if_neg hy]
    exact Function.update_of_ne hy ..
  have hinit : SameFamily (h.esqSessionNew x) ((h.esqSessionNew x).esqSessionInitMcoParams x) :=
    ⟨fun y => by
      unfold Heap.esqSessionInitMcoParams
      rw [Heap.session_modify]
      split
      next hy =>
        subst hy
        rfl
      · rfl, rfl, rfl⟩
  unfold Heap.esqStartMcoSession at hr
  generalize hu : (h.esqSessionNew x).esqSessionInitMcoParams x = u at *
  have hlog : u.log = h.log := by
    rw [← hu]
    rfl
  obtain ⟨⟨r, v⟩, htake, hr⟩ := bind_eq_ok.mp hr
  cases hr
  have hm : (u.session x).magic = true := by
    exact (congrArg Session.magic hsession :)
  rw [Heap.esqSessionTakeAction_eq hm, hcell, hact] at htake
  have hpost : (u.commit x d es).postActions x = .ok (r, h') := htake
  unfold Heap.postActions at hpost
  rw [Heap.commit_session_self, hop] at hpost
  cases hpost
  refine ⟨hinit.trans (Heap.sameFamily_commit (hkin.trans ?_)), ⟨es, ?_⟩, ?_, ?_⟩
  · have := congrArg Session.kin hsession
    exact Eq.symm this
  · show u.log ++ _ = _
    rw [hlog]
  · rw [Heap.commit_cell_self]
    exact htidy
  · intro y hy
    rw [Heap.commit_cell_of_ne hy]
    exact hne y hy

theorem RunInv.startMco (hi : RunInv s) (hx : s.heap.allocated x = false)
    (hr : s.quiet.esqStartMcoSession x = .ok h) : RunInv ((s.forget x).observe h) := by
  obtain ⟨hs, ⟨es, hlog⟩, htidy, hother⟩ := Heap.startMco_spec hr
  have hnew := hi.new hx
  have hquiet : Quiet h.log := by
    rw [hlog]
    exact quiet_lists x es
  rw [FamilyRun.observe_quiet (fun _ he => absurd he List.not_mem_nil)] at hnew
  have hsame := hnew.same hs (fun y hy => ?_) hquiet
  · rw [FamilyRun.observe_quiet hquiet] at hsame ⊢
    exact hsame
  · by_cases hyx : y = x
    · subst hyx
      exact htidy
    · rw [hother y hyx]
      exact hi.tidy y (((Heap.live_esqSessionNew y).mp (hs.live_iff.mp hy)).resolve_left hyx)

theorem Kindred.freeSession_retired (hk : Kindred h) (ha : h.allocated x = true)
    (he : h.ended x = true) : h.freeSession x ≠ .ok h' := by
  intro hf
  have hnotLive : ¬ h.Live x := fun hl => by
    rw [hl.2] at he
    cases he
  obtain ⟨p, hp⟩ := hk.retired x ha he
  obtain ⟨hlp, -, hhave, hparent⟩ := hk.finished p x hp
  have hpx : p ≠ x := by
    rintro rfl
    exact hnotLive hlp
  have hmodify : (h.markEnded x).esqUnhookChildSession x = (h.markEnded x).modify x fun s =>
      { s with childSessionList := [], finishedChildSessionList := [] } := by
    have h1 : ((h.markEnded x).session x).childSessionList = [] := hk.children_eq_nil hnotLive
    have h2 : ((h.markEnded x).session x).finishedChildSessionList = [] :=
      hk.finishedChildren_eq_nil hnotLive
    unfold Heap.esqUnhookChildSession
    rw [h1, h2]
    rfl
  have hself : ((h.markEnded x).esqUnhookChildSession x).session x = { h.session x with
      childSessionList := [], finishedChildSessionList := [] } := by
    rw [hmodify, Heap.session_modify, if_pos rfl]
    rfl
  have hchild : (((h.markEnded x).esqUnhookChildSession x).session p).childSessionList
      = h.children p := by
    rw [hmodify, Heap.session_modify, if_neg hpx]
    rfl
  unfold Heap.freeSession at hf
  dsimp only at hf
  rw [hself] at hf
  dsimp only at hf
  rw [hhave, if_pos rfl, hparent] at hf
  obtain ⟨u, hu, -⟩ := bind_eq_ok.mp hf
  obtain ⟨hmem, -⟩ := Heap.esqMoveChildSessionIntoFinishList_ok hu
  rw [hchild] at hmem
  exact hk.notMem_children he hmem

/-- **action を受けた session は、不変量を保つ。** 終わった後に受けてもよい。 -/
theorem RunInv.act {a : ChassisAction} {r : Int} (hi : RunInv s)
    (ha : s.heap.allocated x = true) (hkeep : a.action.KeepsKin)
    (hr : s.quiet.esqSessionTakeAction x a = .ok (r, h)) : RunInv (s.observe h) := by
  have hsq : SameFamily s.heap s.quiet := ⟨fun _ => rfl, rfl, rfl⟩
  have hm : (s.quiet.session x).magic = true := by
    show (s.heap.session x).magic = true
    cases he : s.heap.ended x with
    | false => exact hi.kindred.magic x ⟨ha, he⟩
    | true =>
      obtain ⟨p, hp⟩ := hi.kindred.retired x ha he
      exact (hi.kindred.finished p x hp).2.1.magic
  cases Heap.tookAction hm hr with
  | calm c es qs hact ht hq heq =>
    have hs : SameFamily s.heap h := by
      rw [heq]
      exact (hsq.trans (Heap.sameFamily_commit (SessionCell.act_kin hact hkeep))).trans
        (Heap.sameFamily_logged qs)
    refine hi.same hs (fun y hy => ?_) ?_
    · have hy' := hs.live_iff.mp hy
      rw [heq]
      show ((s.quiet.commit x c es).cell y).Tidy
      by_cases hyx : y = x
      · subst hyx
        rw [Heap.commit_cell_self]
        exact ht (hi.tidy y hy')
      · rw [Heap.commit_cell_of_ne hyx]
        exact hi.tidy y hy'
    · rw [heq]
      intro e he
      rcases List.mem_append.mp he with he | he
      · exact quiet_lists x es e he
      · exact hq e he
  | ends c es hact hop hfree =>
    have hs : SameFamily s.heap (s.quiet.commit x c es) :=
      hsq.trans (Heap.sameFamily_commit (SessionCell.act_kin hact hkeep))
    have hk := hi.kindred.same hs
    cases he : s.heap.ended x with
    | true =>
      refine absurd hfree (hk.freeSession_retired ?_ ?_)
      · rw [hs.allocated, ha]
      · rw [hs.ended, he]
    | false =>
      have hl : (s.quiet.commit x c es).Live x := hs.live_iff.mpr ⟨ha, he⟩
      have hf := hk.freed hl hfree
      refine hi.freed hs (hf.allTidy hk fun y hy hyx => ?_) (quiet_lists x es) hl hf
      rw [Heap.commit_cell_of_ne hyx]
      exact hi.tidy y (hs.live_iff.mp hy)

theorem RunInv.bundled {cb : Nat} (hi : RunInv s) (hp : s.heap.Live p) (hc : s.heap.Live c)
    (hb : Bundled s.quiet h p c cb) :
    RunInv { s.observe h with bundle := Function.update s.bundle c (some ⟨p, cb⟩) } := by
  have hk := hi.kindred_quiet
  have hnone : s.bundle c = none := by
    cases hbc : s.bundle c with
    | none => rfl
    | some b =>
      have hhave := (hi.running c b hbc hc).1
      have hroot : (s.heap.session c).haveParentSession = false := hb.rootless
      rw [hroot] at hhave
      cases hhave
  obtain ⟨hpe, hcol⟩ := hi.plain c hnone
  have hbundle : ∀ y, y ≠ c →
      Function.update s.bundle c (some ⟨p, cb⟩) y = s.bundle y := fun y hy =>
    Function.update_of_ne hy ..
  rw [FamilyRun.observe_quiet (by rw [hb.log]; exact fun _ he => absurd he List.not_mem_nil)]
  constructor
  case kindred => exact hb.kindred hk hp hc
  case tidy =>
    have ht : AllTidy s.quiet := hi.tidy
    exact hb.allTidy ht
  case fresh =>
    intro y hy
    rw [hb.allocated] at hy
    exact hi.fresh y hy
  case plain =>
    intro y hy
    by_cases hyc : y = c
    · subst hyc
      exact hi.plain y hnone
    · exact hi.plain y ((hbundle y hyc).symm.trans hy)
  case running =>
    intro y b hy hl
    by_cases hyc : y = c
    · subst hyc
      cases (Function.update_self y (some ⟨p, cb⟩) s.bundle).symm.trans hy
      have hkin := hb.child
      refine ⟨?_, ?_, hcol, ?_⟩
      · exact Session.haveParentSession_of_kin hkin
      · exact Session.sessionDoneCb_of_kin hkin
      · show (h.session y).parentSession = if s.parentEnded y then none else some p
        rw [hpe]
        exact Session.parentSession_of_kin hkin
    · obtain ⟨-, h2, h3, h4⟩ := hb.of_ne hyc
      dsimp only
      rw [h2, h3, h4]
      exact hi.running y b ((hbundle y hyc).symm.trans hy) (hb.live_iff.mp hl)
  case waiting =>
    intro y b hy ha he
    have ha' : s.heap.allocated y = true := by
      rw [← ha, hb.allocated]
      rfl
    have he' : s.heap.ended y = true := by
      rw [← he, hb.ended]
      rfl
    have hyc : y ≠ c := by
      rintro rfl
      rw [hc.2] at he'
      cases he'
    obtain ⟨-, -, -, h4⟩ := hb.of_ne hyc
    dsimp only
    rw [h4, hb.finishedChildren]
    exact hi.waiting y b ((hbundle y hyc).symm.trans hy) ha' he'
  case gone =>
    intro y b hy ha
    have ha' : s.heap.allocated y = false := by
      rw [← ha, hb.allocated]
      rfl
    have hyc : y ≠ c := by
      rintro rfl
      rw [hc.1] at ha'
      cases ha'
    dsimp only
    rw [hb.ended]
    exact hi.gone y b ((hbundle y hyc).symm.trans hy) ha'

theorem RunInv.collected (hi : RunInv s) (hc : Collected s.quiet h p) :
    RunInv ((s.markCollected p).observe h) := by
  have hk := hi.kindred_quiet
  have hn := hk.finishedNodup p
  have hlog : h.log = (s.quiet.finishedChildren p).flatMap s.quiet.farewell := hc.log
  have hends : ∀ y, h.log.any (ChassisEvent.endsOf y) = false := fun y => by
    rw [hlog, any_ends_flatMap]
  have hparentEnded : ∀ y, ((s.markCollected p).observe h).parentEnded y = s.parentEnded y := by
    intro y
    show (s.parentEnded y || (s.bundle y).any fun b =>
      h.log.any (ChassisEvent.endsOf b.parent)) = _
    simp only [hends]
    cases s.bundle y <;> simp
  have hcollected : ∀ y, ((s.markCollected p).observe h).collected y = (s.collected y ||
    (s.heap.ended y && (s.bundle y).any fun b => b.parent = p)) := fun _ => rfl
  have hcalls : ∀ y, ((s.markCollected p).observe h).calls y = s.calls y
      + if y ∈ s.heap.finishedChildren p then
          (if (s.heap.session y).sessionDoneCb = 0 then 0 else 1) else 0 := by
    intro y
    show s.calls y + h.log.countP (ChassisEvent.callsOf y) = _
    rw [hlog, countP_calls_flatMap hn]
    rfl
  have hfrees : ∀ y, ((s.markCollected p).observe h).frees y = s.frees y
      + if y ∈ s.heap.finishedChildren p then 1 else 0 := by
    intro y
    show s.frees y + h.log.countP (ChassisEvent.freesOf y) = _
    rw [hlog, countP_frees_flatMap hn]
    rfl
  have hall : ∀ y, h.allocated y = if y ∈ s.heap.finishedChildren p then false
    else s.heap.allocated y := hc.allocated
  have hend : h.ended = s.heap.ended := hc.ended
  constructor
  case kindred => exact hc.kindred hk
  case tidy => exact hc.allTidy hk hi.tidy
  case fresh =>
    intro y hy
    have hy' : h.allocated y = true := hy
    rw [hall] at hy'
    split at hy'
    · cases hy'
    next hnot =>
      rw [hcalls, hfrees, if_neg hnot, if_neg hnot]
      exact hi.fresh y hy'
  case plain =>
    intro y hb
    have hb' : s.bundle y = none := hb
    obtain ⟨h1, h2⟩ := hi.plain y hb'
    rw [hparentEnded, hcollected, hb', h2]
    exact ⟨h1, by simp⟩
  case running =>
    intro y b hb hl
    have hb' : s.bundle y = some b := hb
    have hl' : s.heap.Live y := (hc.live_iff hk).mp hl
    obtain ⟨-, f2, f3, f4, -⟩ := hc.fields y
    rw [hparentEnded, hcollected, hl'.2]
    show (h.session y).haveParentSession = true ∧ (h.session y).sessionDoneCb = b.cb ∧ _
      ∧ (h.session y).parentSession = _
    rw [f2, f3, f4]
    obtain ⟨h1, h2, h3, h4⟩ := hi.running y b hb' hl'
    exact ⟨h1, h2, by rw [h3]; rfl, h4⟩
  case waiting =>
    intro y b hb ha he
    have hb' : s.bundle y = some b := hb
    have ha' : h.allocated y = true := ha
    have he' : s.heap.ended y = true := by
      rw [← hend]
      exact he
    rw [hall] at ha'
    split at ha'
    · cases ha'
    next hnot =>
      obtain ⟨h1, h2, h3, h4⟩ := hi.waiting y b hb' ha' he'
      have hbp : b.parent ≠ p := by
        rintro rfl
        exact hnot h4
      obtain ⟨-, -, -, f4, -, -⟩ := hc.fields y
      obtain ⟨-, -, -, -, -, f6⟩ := hc.fields b.parent
      rw [hparentEnded, hcollected, hb', h3]
      refine ⟨f4.trans h1, h2, by simp [hbp], ?_⟩
      show y ∈ h.finishedChildren b.parent
      rw [f6, if_neg hbp]
      exact h4
  case gone =>
    intro y b hb ha
    have hb' : s.bundle y = some b := hb
    have ha' : h.allocated y = false := ha
    rw [hcalls, hfrees, hparentEnded, hcollected, hb']
    show h.ended y = true ∧ _
    rw [hend]
    rw [hall] at ha'
    split at ha'
    next hmem =>
      obtain ⟨-, hr, -, -⟩ := hi.kindred.finished p y hmem
      obtain ⟨h1, -, -, -⟩ := hi.waiting y b hb' hr.allocated hr.ended
      obtain ⟨hcl, hfr⟩ := hi.fresh y hr.allocated
      have hbp := hi.finished_parent hb' hmem
      rw [if_pos hmem, if_pos hmem, hcl, hfr, h1, hr.ended]
      exact ⟨rfl, rfl, Nat.zero_add _, Or.inr (by simp [hbp])⟩
    next hnot =>
      obtain ⟨h1, h2, h3, h4⟩ := hi.gone y b hb' ha'
      rw [if_neg hnot, if_neg hnot, h2, h3]
      refine ⟨h1, rfl, rfl, h4.imp id fun h => ?_⟩
      rw [h]
      rfl

end

/-! ## 実行の全体 -/

theorem Action.keepsKin_of_not_bundles {a : Action} (h : a.bundles = false) : a.KeepsKin := by
  constructor
  · rintro q cb rfl
    cases h
  · rintro c rfl
    cases h

theorem runInv_step {s s' : FamilyRun} (op : FamilyOp) (hi : RunInv s)
    (hs : familyStep s op = some s') : RunInv s' := by
  unfold familyStep at hs
  cases op with
  | new x =>
    dsimp only at hs
    split at hs
    · cases hs
    next hx =>
      cases hs
      exact hi.new (Bool.eq_false_iff.mpr hx)
  | startMco x =>
    dsimp only at hs
    split at hs
    · cases hs
    next hx =>
      split at hs
      · cases hs
      next h hr =>
        cases hs
        exact hi.startMco (Bool.eq_false_iff.mpr hx) hr
  | act x a =>
    dsimp only at hs
    split at hs
    next hand =>
      rw [Bool.and_eq_true, Bool.not_eq_true'] at hand
      split at hs
      · cases hs
      next r h hr =>
        cases hs
        exact hi.act hand.1 (Action.keepsKin_of_not_bundles hand.2) hr
    · cases hs
  | bundle p c cb =>
    dsimp only at hs
    split at hs
    next hl =>
      split at hs
      · cases hs
      next r h hr =>
        cases hs
        exact hi.bundled hl.1 hl.2 (hi.kindred_quiet.bundled hi.tidy hl.1 hl.2 hr)
    · cases hs
  | collect p =>
    dsimp only at hs
    split at hs
    · split at hs
      · cases hs
      next h hr =>
        cases hs
        exact hi.collected (hi.kindred_quiet.collected hr)
    · cases hs

/--
**子の完了の callback と解放は高々一度で、終わった子を親が引き取るか、親が終わるかすれば
ちょうど一度である。親が生きている子は、親の二つの list のちょうど一方にいる。**
-/
theorem children_done_once {ops : List FamilyOp} {s : FamilyRun}
    (hrun : runFrom familyStep FamilyRun.init ops = some s) : ChildrenOnce s :=
  (runFrom_invariant' (fun _ op _ hi hs => runInv_step op hi hs) runInv_init hrun).childrenOnce

/-- 親 0 の callback の中で子 1 を作り、子が終わってから親が引き取って終わる。 -/
def sampleFamily : List FamilyOp :=
  [.new 0, .act 0 { action := .addSockFdSingle { timeouts := 1 } }, .act 0 { action := .windUp },
    .act 0 { action := .pickUp }, .act 0 { action := .notifyTimeout },
    .act 0 { action := .executeCb }, .new 1,
    .act 1 { action := .addSockFdSingle { timeouts := 1 } }, .bundle 0 1 7,
    .act 1 { action := .windUp }, .act 1 { action := .pickUp }, .act 1 { action := .notifyExit },
    .act 1 { action := .executeCb }, .act 1 { action := .windUp }, .collect 0,
    .act 0 { action := .windUp }]

theorem children_done_once_sample : ∃ s, runFrom familyStep FamilyRun.init sampleFamily = some s
    ∧ s.calls 1 = 1 ∧ s.frees 1 = 1 ∧ ChildrenOnce s := by
  have hrun : (runFrom familyStep FamilyRun.init sampleFamily).map
      (fun s => (s.calls 1, s.frees 1)) = some (1, 1) := by decide +kernel
  obtain ⟨s, hs, hcounts⟩ := Option.map_eq_some_iff.mp hrun
  obtain ⟨hcalls, hfrees⟩ := Prod.mk.inj hcounts
  exact ⟨s, hs, hcalls, hfrees, children_done_once hs⟩

end Esq
