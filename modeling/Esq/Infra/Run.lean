import Mathlib.Data.List.Basic

/-!
# 実行と不変量

`step` を列に沿って当てる。`step` は途中で落ちることがあり、落ちたら `none` を返す。
落ちた後の状態は無いので、「到達した状態すべて」は `runFrom` が `some` を返した状態のことである。

条件つきの不変量は `Along`（列の各 step がそのときの状態で条件を満たす）と組にして使う。
-/

namespace Infra

variable {σ ι : Type*}

/-- 列に沿って `step` を当てる。途中で落ちたら `none`。 -/
def runFrom (step : σ → ι → Option σ) : σ → List ι → Option σ
  | s, [] => some s
  | s, i :: is => match step s i with
    | none => none
    | some t => runFrom step t is

/-- 列の各 step が、そのときの状態で `ok` を満たす。落ちた後のことは問わない。 -/
def Along (step : σ → ι → Option σ) (ok : σ → ι → Prop) : σ → List ι → Prop
  | _, [] => True
  | s, i :: is => ok s i ∧ ∀ t, step s i = some t → Along step ok t is

/-- 列に沿って着くどの状態も `P` を満たす。 -/
def Throughout (step : σ → ι → Option σ) (P : σ → Prop) : σ → List ι → Prop
  | s, [] => P s
  | s, i :: is => P s ∧ ∀ t, step s i = some t → Throughout step P t is

section

variable {step : σ → ι → Option σ} {ok : σ → ι → Prop} {P : σ → Prop} {s t u : σ} {i : ι}
  {is js : List ι}

@[simp] theorem runFrom_nil : runFrom step s [] = some s := rfl

theorem runFrom_cons_eq_some :
    runFrom step s (i :: is) = some u ↔ ∃ t, step s i = some t ∧ runFrom step t is = some u := by
  rw [runFrom]
  cases step s i <;> simp

theorem runFrom_append_eq_some : runFrom step s (is ++ js) = some u ↔
    ∃ t, runFrom step s is = some t ∧ runFrom step t js = some u := by
  induction is generalizing s with
  | nil => simp
  | cons i is ih =>
    simp only [List.cons_append, runFrom_cons_eq_some, ih]
    constructor
    · rintro ⟨t, ht, v, hv, hu⟩
      exact ⟨v, ⟨t, ht, hv⟩, hu⟩
    · rintro ⟨v, ⟨t, ht, hv⟩, hu⟩
      exact ⟨t, ht, v, hv, hu⟩

theorem runFrom_invariant (hstep : ∀ s i t, P s → ok s i → step s i = some t → P t) :
    ∀ {is : List ι} {s u : σ}, P s → Along step ok s is → runFrom step s is = some u → P u
  | [], s, u, hs, _, hu => by
    rw [runFrom_nil, Option.some.injEq] at hu
    exact hu ▸ hs
  | i :: is, s, u, hs, hok, hu => by
    obtain ⟨t, ht, hu⟩ := runFrom_cons_eq_some.mp hu
    exact runFrom_invariant hstep (hstep s i t hs hok.1 ht) (hok.2 t ht) hu

theorem along_cons_of_eq (ht : step s i = some t) (hi : ok s i) (h : Along step ok t is) :
    Along step ok s (i :: is) := by
  refine ⟨hi, fun u hu => ?_⟩
  rw [ht] at hu
  cases hu
  exact h

theorem Along.of_append (h : Along step ok s (is ++ js))
    (hu : runFrom step s is = some u) : Along step ok u js := by
  induction is generalizing s with
  | nil =>
    rw [runFrom_nil, Option.some.injEq] at hu
    exact hu ▸ h
  | cons i is ih =>
    obtain ⟨t, ht, hu⟩ := runFrom_cons_eq_some.mp hu
    exact ih (h.2 t ht) hu

theorem along_true : ∀ {is : List ι} {s : σ}, Along step (fun _ _ => True) s is
  | [], _ => trivial
  | _ :: _, _ => ⟨trivial, fun _ _ => along_true⟩

theorem along_of_forall : ∀ {is : List ι} {s : σ}, (∀ i ∈ is, ∀ s, ok s i) → Along step ok s is
  | [], _, _ => trivial
  | i :: _, s, h => ⟨h i List.mem_cons_self s, fun _ _ =>
      along_of_forall fun j hj => h j (List.mem_cons_of_mem i hj)⟩

theorem runFrom_invariant' (hstep : ∀ s i t, P s → step s i = some t → P t)
    (hs : P s) (hu : runFrom step s is = some u) : P u :=
  runFrom_invariant (fun s i t h (_ : True) => hstep s i t h) hs along_true hu

theorem Along.and {ok' : σ → ι → Prop} : ∀ {is : List ι} {s : σ}, Along step ok s is →
    Along step ok' s is → Along step (fun s i => ok s i ∧ ok' s i) s is
  | [], _, _, _ => trivial
  | _ :: _, _, h, h' => ⟨⟨h.1, h'.1⟩, fun t ht => (h.2 t ht).and (h'.2 t ht)⟩

theorem Along.mono {ok' : σ → ι → Prop} (hok : ∀ s i, ok s i → ok' s i) : ∀ {is : List ι} {s : σ},
    Along step ok s is → Along step ok' s is
  | [], _, _ => trivial
  | _ :: _, _, h => ⟨hok _ _ h.1, fun t ht => (h.2 t ht).mono hok⟩

theorem Along.of_invariant {ok' : σ → ι → Prop}
    (hstep : ∀ s i t, P s → ok s i → step s i = some t → P t)
    (himp : ∀ s i, P s → ok s i → ok' s i) : ∀ {is : List ι} {s : σ}, P s →
    Along step ok s is → Along step ok' s is
  | [], _, _, _ => trivial
  | i :: _, s, hs, h => ⟨himp s i hs h.1, fun t ht =>
      (h.2 t ht).of_invariant hstep himp (hstep s i t hs h.1 ht)⟩

theorem along_congr {ok' : σ → ι → Prop} (hstep : ∀ s i t, P s → step s i = some t → P t)
    (hiff : ∀ s i, P s → (ok s i ↔ ok' s i)) : ∀ {is : List ι} {s : σ}, P s →
    (Along step ok s is ↔ Along step ok' s is)
  | [], _, _ => Iff.rfl
  | i :: _, s, hs => and_congr (hiff s i hs)
      (forall₂_congr fun t ht => along_congr hstep hiff (hstep s i t hs ht))

theorem Throughout.head (h : Throughout step P s is) : P s := by
  cases is with
  | nil => exact h
  | cons i is => exact h.1

theorem Throughout.mono {Q : σ → Prop} (hPQ : ∀ s, P s → Q s) : ∀ {is : List ι} {s : σ},
    Throughout step P s is → Throughout step Q s is
  | [], s, h => hPQ s h
  | _ :: _, s, h => ⟨hPQ s h.1, fun t ht => Throughout.mono hPQ (h.2 t ht)⟩

theorem Throughout.last (h : Throughout step P s is) (hu : runFrom step s is = some u) : P u := by
  induction is generalizing s with
  | nil =>
    rw [runFrom_nil, Option.some.injEq] at hu
    exact hu ▸ h
  | cons i is ih =>
    obtain ⟨t, ht, hu⟩ := runFrom_cons_eq_some.mp hu
    exact ih (h.2 t ht) hu

/--
着く状態がすべて `Q` を満たし、step がすべて `R` を満たすための、ちょうどの条件。

`good` な step は不変量 `P` を保って `R` を満たし、そうでない step は `R` か、次の状態の `Q` を破る。
-/
theorem throughout_and_along_iff {good R : σ → ι → Prop} {Q : σ → Prop}
    (hstep : ∀ s i t, P s → ok s i → good s i → step s i = some t → P t)
    (hR : ∀ s i, P s → ok s i → good s i → R s i)
    (hbreak : ∀ s i, P s → ok s i → ¬ good s i → R s i → ∃ t, step s i = some t ∧ ¬ Q t)
    (hQ : ∀ s, P s → Q s) (hs : P s) (hok : Along step ok s is) :
    Throughout step Q s is ∧ Along step R s is ↔ Along step good s is := by
  induction is generalizing s with
  | nil => exact ⟨fun _ => trivial, fun _ => ⟨hQ s hs, trivial⟩⟩
  | cons i is ih =>
    constructor
    · rintro ⟨hthrough, halong⟩
      have hgood : good s i := by
        by_contra hbad
        obtain ⟨t, ht, hnot⟩ := hbreak s i hs hok.1 hbad halong.1
        exact hnot (hthrough.2 t ht).head
      refine ⟨hgood, fun t ht => ?_⟩
      exact (ih (hstep s i t hs hok.1 hgood ht) (hok.2 t ht)).mp
        ⟨hthrough.2 t ht, halong.2 t ht⟩
    · intro h
      have hrest : ∀ t, step s i = some t → Throughout step Q t is ∧ Along step R t is :=
        fun t ht => (ih (hstep s i t hs hok.1 h.1 ht) (hok.2 t ht)).mpr (h.2 t ht)
      exact ⟨⟨hQ s hs, fun t ht => (hrest t ht).1⟩, hR s i hs hok.1 h.1,
        fun t ht => (hrest t ht).2⟩

/-- 決まった列の条件は、計算して確かめられる。 -/
instance Along.decidable [∀ s i, Decidable (ok s i)] : ∀ (is : List ι) (s : σ),
    Decidable (Along step ok s is)
  | [], _ => isTrue trivial
  | i :: is, s =>
    match h : step s i with
    | none => decidable_of_iff (ok s i) ⟨fun hi => ⟨hi, fun t ht => by rw [h] at ht; cases ht⟩, And.left⟩
    | some t =>
      haveI := Along.decidable is t
      decidable_of_iff (ok s i ∧ Along step ok t is)
        ⟨fun ⟨hi, hrest⟩ => along_cons_of_eq h hi hrest, fun ha => ⟨ha.1, ha.2 t h⟩⟩

/-- 着く状態の性質も、同じように確かめられる。 -/
instance Throughout.decidable [∀ s, Decidable (P s)] : ∀ (is : List ι) (s : σ),
    Decidable (Throughout step P s is)
  | [], s => inferInstanceAs (Decidable (P s))
  | i :: is, s =>
    match h : step s i with
    | none => decidable_of_iff (P s) ⟨fun hs => ⟨hs, fun t ht => by rw [h] at ht; cases ht⟩, And.left⟩
    | some t =>
      haveI := Throughout.decidable is t
      decidable_of_iff (P s ∧ Throughout step P t is)
        ⟨fun ⟨hs, hrest⟩ => ⟨hs, fun u hu => by rw [h] at hu; cases hu; exact hrest⟩,
          fun ha => ⟨ha.1, ha.2 t h⟩⟩

theorem runFrom_total (f : σ → ι → σ) : ∀ (is : List ι) (s : σ),
    runFrom (fun s i => some (f s i)) s is = some (is.foldl f s)
  | [], _ => rfl
  | i :: is, s => runFrom_total f is (f s i)

end

end Infra
