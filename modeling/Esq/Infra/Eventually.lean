import Mathlib.Data.Nat.Notation
import Mathlib.Tactic.Common

/-!
# 終わらない run と「いつか」

入力の無い所では状態が変わらないものとして、終わらない run を扱う。有限の run も、後に入力の無い
終わらない run である。

「いつか `goal` になる」ことは、順位を使って示す。順位は増えず、`helpful` な所で減る。
-/

namespace Infra

variable {σ ι : Type*}

structure Execution (step : σ → ι → Option σ) (s : σ) where
  state : ℕ → σ
  input : ℕ → Option ι
  zero : state 0 = s
  idle : ∀ n, input n = none → state (n + 1) = state n
  next : ∀ n i, input n = some i → step (state n) i = some (state (n + 1))

def Execution.Along {step : σ → ι → Option σ} {s : σ} (e : Execution step s)
    (ok : σ → ι → Prop) : Prop :=
  ∀ n i, e.input n = some i → ok (e.state n) i

section

variable {step : σ → ι → Option σ} {s : σ} {P : σ → Prop} {ok : σ → ι → Prop}

theorem Execution.invariant (e : Execution step s)
    (hstep : ∀ s i t, P s → ok s i → step s i = some t → P t) (hs : P s) (hok : e.Along ok)
    (n : ℕ) : P (e.state n) := by
  induction n with
  | zero => rw [e.zero]; exact hs
  | succ n ih =>
    cases hi : e.input n with
    | none => rw [e.idle n hi]; exact ih
    | some i => exact hstep _ i _ ih (hok n i hi) (e.next n i hi)

end

/-! ## 順位 -/

section

variable (P goal helpful : ℕ → Prop) (rank : ℕ → ℕ) {n : ℕ}

theorem kept_or_reached (hstay : ∀ n, P n → goal n ∨ P (n + 1) ∧ rank (n + 1) ≤ rank n)
    (hn : P n) (d : ℕ) : (∃ k, n ≤ k ∧ goal k) ∨ P (n + d) ∧ rank (n + d) ≤ rank n := by
  induction d with
  | zero => exact Or.inr ⟨hn, Nat.le_refl _⟩
  | succ d ih =>
    rcases ih with hgoal | ⟨hp, hrank⟩
    · exact Or.inl hgoal
    · rcases hstay (n + d) hp with hgoal | ⟨hp', hrank'⟩
      · exact Or.inl ⟨n + d, Nat.le_add_right n d, hgoal⟩
      · exact Or.inr ⟨hp', Nat.le_trans hrank' hrank⟩

/-- **順位が増えず、いつか来る `helpful` な所で減るなら、いつか `goal` になる。** -/
theorem eventually_of_rank (hstay : ∀ n, P n → goal n ∨ P (n + 1) ∧ rank (n + 1) ≤ rank n)
    (hmove : ∀ n, P n → helpful n → goal n ∨ P (n + 1) ∧ rank (n + 1) < rank n)
    (hfair : ∀ n, P n → ∃ m, n ≤ m ∧ helpful m) (hn : P n) : ∃ m, n ≤ m ∧ goal m := by
  induction hr : rank n using Nat.strongRecOn generalizing n with
  | _ r ih =>
    obtain ⟨m, hnm, hhelp⟩ := hfair n hn
    obtain ⟨d, rfl⟩ := Nat.exists_eq_add_of_le hnm
    rcases kept_or_reached P goal rank hstay hn d with hgoal | ⟨hp, hrank⟩
    · exact hgoal
    rcases hmove (n + d) hp hhelp with hgoal | ⟨hp', hrank'⟩
    · exact ⟨n + d, hnm, hgoal⟩
    · obtain ⟨k, hk, hgoal⟩ := ih (rank (n + d + 1)) (by omega) hp' rfl
      exact ⟨k, by omega, hgoal⟩

end

end Infra
