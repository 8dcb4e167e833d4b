import Esq.Infra.Run

/-!
# 実行の中で最初に見えるもの

`seen` は状態から見えるものを読む。列に沿って `step` を当て、最初に何かが見えた所で止まる。
-/

namespace Infra

variable {σ ι β : Type*}

/-- 列に沿って着く状態のうち、最初に `seen` が何かを返したときの値。 -/
def firstSeen (step : σ → ι → Option σ) (seen : σ → Option β) : σ → List ι → Option β
  | s, [] => seen s
  | s, i :: is => match seen s with
    | some b => some b
    | none => match step s i with
      | none => none
      | some t => firstSeen step seen t is

section

variable {step : σ → ι → Option σ} {seen : σ → Option β} {P : σ → Prop} {Q : β → Prop} {s : σ}
  {b : β} {is : List ι}

theorem firstSeen_of_seen (hs : seen s = some b) : firstSeen step seen s is = some b := by
  cases is with
  | nil => exact hs
  | cons i is =>
    rw [firstSeen, hs]

theorem firstSeen_cons_eq_some {i : ι} (hs : seen s = none) :
    firstSeen step seen s (i :: is) = some b ↔
      ∃ t, step s i = some t ∧ firstSeen step seen t is = some b := by
  rw [firstSeen, hs]
  cases step s i <;> simp

/--
**最初に見えるものの性質。**

何も見えない間は `P` が保たれ、見えたものは `Q` を満たすとする。
-/
theorem firstSeen_of_step (hseen : ∀ s b, P s → seen s = some b → Q b) :
    ∀ {is : List ι} {s : σ}, P s →
      (∀ i ∈ is, ∀ s t, P s → seen s = none → step s i = some t → P t) →
      firstSeen step seen s is = some b → Q b
  | [], s, hs, _, hb => hseen s b hs hb
  | i :: is, s, hs, hstep, hb => by
    cases hnow : seen s with
    | some b' =>
      rw [firstSeen_of_seen hnow] at hb
      cases hb
      exact hseen s b hs hnow
    | none =>
      obtain ⟨t, ht, hb⟩ := (firstSeen_cons_eq_some hnow).mp hb
      exact firstSeen_of_step hseen (hstep i List.mem_cons_self s t hs hnow ht)
        (fun j hj => hstep j (List.mem_cons_of_mem i hj)) hb

end

end Infra
