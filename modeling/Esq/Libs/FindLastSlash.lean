import Esq.Libs.PathIsVerySafe

/-!
# 終わりの `/` を探す

`libs/find-last-slash/find-last-slash.c`。見つからなければ -1 である。
-/

namespace Esq

def findLastSlash2Loop (i p : Int) : List UInt8 → Int
  | [] => p
  | c :: b => findLastSlash2Loop (i + 1) (if isSlash c then i else p) b

def findLastSlash2 (b : List UInt8) : Int := findLastSlash2Loop 0 (-1) b

theorem findLastSlash2Loop_cases (b : List UInt8) : ∀ i p : Int,
    (findLastSlash2Loop i p b = p ∧ ∀ c ∈ b, isSlash c = false) ∨
      ∃ u c w, b = u ++ c :: w ∧ findLastSlash2Loop i p b = i + u.length ∧ isSlash c = true ∧
        ∀ x ∈ w, isSlash x = false := by
  induction b with
  | nil =>
    intro i p
    exact Or.inl ⟨rfl, fun c hc => by cases hc⟩
  | cons d b ih =>
    intro i p
    unfold findLastSlash2Loop
    rcases ih (i + 1) (if isSlash d then i else p) with ⟨heq, hb⟩ | ⟨u, c, w, rfl, heq, hc, hw⟩
    · by_cases hd : isSlash d = true
      · rw [if_pos hd] at heq ⊢
        exact Or.inr ⟨[], d, b, rfl, by simpa using heq, hd, hb⟩
      · rw [if_neg hd] at heq ⊢
        refine Or.inl ⟨heq, fun c hc => ?_⟩
        rcases List.mem_cons.mp hc with rfl | hc
        · simpa using hd
        · exact hb c hc
    · refine Or.inr ⟨d :: u, c, w, rfl, ?_, hc, hw⟩
      rw [heq, List.length_cons]
      omega

theorem findLastSlash2_cases (b : List UInt8) :
    (findLastSlash2 b = -1 ∧ ∀ c ∈ b, isSlash c = false) ∨
      ∃ u c w, b = u ++ c :: w ∧ findLastSlash2 b = u.length ∧ isSlash c = true ∧
        ∀ x ∈ w, isSlash x = false := by
  have h := findLastSlash2Loop_cases b 0 (-1)
  simpa only [Int.zero_add, findLastSlash2] using h

end Esq
