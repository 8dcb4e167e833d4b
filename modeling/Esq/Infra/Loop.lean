import Mathlib.Tactic.Common

/-!
# 自分で終わりを決める loop

`for (;;)` の一回りを、続けるか抜けるかを返す関数 `turn` として扱う。何回り目かで外から
届くものが変わるので、`turn` はその番号も受け取る。

* `exists_quit` — 一回りごとに、抜けるか量が減るなら、量の分だけ回るうちに抜ける
* `not_quit` — 不変量のもとで抜けないなら、何回りしても抜けない
* `foldlM_invariant` — 一つごとに保つことは、並びの全部についても保つ
-/

namespace Infra

variable {ε σ : Type*}

/-- loop の一回りの結果。 -/
inductive Turn (σ : Type*) where
  | next (s : σ)
  | quit (s : σ)

/-- `k` 回り目から `n` 回りする。抜けたらそこで終わる。 -/
def loopFrom (turn : Nat → σ → Except ε (Turn σ)) : Nat → Nat → σ → Except ε (Turn σ)
  | _, 0, s => .ok (.next s)
  | k, n + 1, s => do
    match ← turn k s with
    | .next t => loopFrom turn (k + 1) n t
    | .quit t => .ok (.quit t)

variable {turn : Nat → σ → Except ε (Turn σ)} {P Q : σ → Prop} {k n : Nat} {s t : σ}

theorem loopFrom_next (h : turn k s = .ok (.next t)) :
    loopFrom turn k (n + 1) s = loopFrom turn (k + 1) n t := by
  rw [loopFrom, h]
  rfl

theorem loopFrom_quit (h : turn k s = .ok (.quit t)) :
    loopFrom turn k (n + 1) s = .ok (.quit t) := by
  rw [loopFrom, h]
  rfl

theorem exists_quit {rank : σ → Nat} (hturn : ∀ k s, P s →
      (∃ t, turn k s = .ok (.next t) ∧ P t ∧ rank t < rank s) ∨
      ∃ t, turn k s = .ok (.quit t) ∧ Q t) (h : P s) :
    ∃ n ≤ rank s + 1, ∃ t, loopFrom turn k n s = .ok (.quit t) ∧ Q t := by
  induction hr : rank s using Nat.strongRecOn generalizing k s with
  | ind r ih =>
    subst hr
    rcases hturn k s h with ⟨t, ht, hP, hlt⟩ | ⟨t, ht, hQ⟩
    · obtain ⟨n, hn, u, hu, hQ⟩ := ih (rank t) hlt (k := k + 1) hP rfl
      exact ⟨n + 1, by omega, u, (loopFrom_next ht).trans hu, hQ⟩
    · exact ⟨1, by omega, t, loopFrom_quit ht, hQ⟩

theorem not_quit (hturn : ∀ k s, P s → ∀ r, turn k s = .ok r → ∃ t, r = .next t ∧ P t)
    (h : P s) : ∀ n, loopFrom turn k n s ≠ .ok (.quit t) := by
  intro n
  induction n generalizing k s with
  | zero => simp [loopFrom]
  | succ n ih =>
    cases hr : turn k s with
    | error e =>
      rw [loopFrom, hr]
      intro he
      cases he
    | ok r =>
      obtain ⟨u, rfl, hP⟩ := hturn k s h r hr
      rw [loopFrom_next hr]
      exact ih hP

theorem foldlM_invariant {α : Type*} {f : σ → α → Except ε σ}
    (hf : ∀ s x t, P s → f s x = .ok t → P t) {xs : List α} (h : P s)
    (ht : xs.foldlM f s = .ok t) : P t := by
  induction xs generalizing s with
  | nil => cases ht; exact h
  | cons x xs ih =>
    rw [List.foldlM_cons] at ht
    cases hx : f s x with
    | error e => rw [hx] at ht; cases ht
    | ok u =>
      rw [hx] at ht
      exact ih (hf s x u h hx) ht

end Infra
