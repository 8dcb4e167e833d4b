import Mathlib.Data.List.Infix

/-!
# 文字列の順序と head

文字に正の順位をつけ、文字列の終わりを順位 0 とする。最初に違う位置で順位の高い方を上とする順序
（`Above`）では、文字列はその真の prefix より必ず上にある。上から順に並べた文字列のうち、
同じ文字列の prefix であるものは、長い順に現れる（`Above.length_lt`）。
-/

namespace Infra

variable {α : Type*} {rank : α → Nat} {p q r s : List α} {d k : Nat}

/-- `d` 番目の文字の順位。終わりから先は 0。 -/
def rankAt (rank : α → Nat) (p : List α) (d : Nat) : Nat := (p[d]?).elim 0 rank

/-- 最初に違う位置で、`p` の方が順位が高い。 -/
def Above (rank : α → Nat) (p q : List α) : Prop :=
  ∃ d, p.take d = q.take d ∧ rankAt rank q d < rankAt rank p d

def Ranked (rank : α → Nat) (p : List α) : Prop := ∀ a ∈ p, 0 < rank a

/-- `p` は、`s` の prefix である文字列のうち最も長い。 -/
structure IsLongestHead (ps : List (List α)) (s p : List α) : Prop where
  mem : p ∈ ps
  head : p <+: s
  longest : ∀ q ∈ ps, q <+: s → q.length ≤ p.length

/-! ## 順位 -/

theorem rankAt_of_le (h : p.length ≤ d) : rankAt rank p d = 0 := by
  unfold rankAt
  rw [List.getElem?_eq_none h]
  rfl

theorem lt_length_of_rankAt_pos (h : 0 < rankAt rank p d) : d < p.length := by
  by_contra hlen
  rw [rankAt_of_le (Nat.le_of_not_lt hlen)] at h
  exact Nat.lt_irrefl 0 h

theorem rankAt_pos_of_lt (hp : Ranked rank p) (h : d < p.length) : 0 < rankAt rank p d := by
  unfold rankAt
  rw [List.getElem?_eq_getElem h]
  exact hp _ (List.getElem_mem h)

theorem rankAt_congr (h : p.take k = q.take k) (hd : d < k) :
    rankAt rank p d = rankAt rank q d := by
  have hget : (p.take k)[d]? = (q.take k)[d]? := by rw [h]
  rw [List.getElem?_take_of_lt hd, List.getElem?_take_of_lt hd] at hget
  unfold rankAt
  rw [hget]

theorem rankAt_of_head (h : p <+: s) (hd : d < p.length) : rankAt rank p d = rankAt rank s d := by
  have htake : p.take p.length = s.take p.length := by
    rw [List.take_length, ← List.prefix_iff_eq_take]
    exact h
  exact rankAt_congr htake hd

theorem take_succ_congr (hinj : Function.Injective rank) (h : p.take k = q.take k)
    (hr : rankAt rank p k = rankAt rank q k) (hpos : 0 < rankAt rank p k) :
    p.take (k + 1) = q.take (k + 1) := by
  have hp : k < p.length := lt_length_of_rankAt_pos hpos
  have hq : k < q.length := lt_length_of_rankAt_pos (hr ▸ hpos)
  unfold rankAt at hr
  rw [List.getElem?_eq_getElem hp, List.getElem?_eq_getElem hq] at hr
  rw [List.take_add_one, List.take_add_one, h, List.getElem?_eq_getElem hp,
    List.getElem?_eq_getElem hq, hinj hr]

theorem head_congr (h : p.take k = q.take k) (hr : r.length ≤ k) : r <+: p ↔ r <+: q := by
  have htake : p.take r.length = q.take r.length := by
    rw [← Nat.min_eq_left hr, ← List.take_take, h, List.take_take]
  rw [List.prefix_iff_eq_take, List.prefix_iff_eq_take, htake]

/-! ## 順序 -/

namespace Above

theorem trans (hpq : Above rank p q) (hqr : Above rank q r) : Above rank p r := by
  obtain ⟨d, hd, hlt⟩ := hpq
  obtain ⟨e, he, hlt'⟩ := hqr
  have htake {m : Nat} (h1 : m ≤ d) (h2 : m ≤ e) : p.take m = r.take m := by
    have hpm : p.take m = q.take m := by
      rw [← Nat.min_eq_left h1, ← List.take_take, hd, List.take_take]
    have hqm : q.take m = r.take m := by
      rw [← Nat.min_eq_left h2, ← List.take_take, he, List.take_take]
    rw [hpm, hqm]
  rcases Nat.lt_trichotomy d e with h | h | h
  · exact ⟨d, htake (Nat.le_refl d) (Nat.le_of_lt h), by rw [← rankAt_congr he h]; exact hlt⟩
  · subst h
    exact ⟨d, htake (Nat.le_refl d) (Nat.le_refl d), Nat.lt_trans hlt' hlt⟩
  · exact ⟨e, htake (Nat.le_of_lt h) (Nat.le_refl e), by rw [rankAt_congr hd h]; exact hlt'⟩

theorem cons (a : α) (h : Above rank p q) : Above rank (a :: p) (a :: q) := by
  obtain ⟨d, htake, hlt⟩ := h
  exact ⟨d + 1, by rw [List.take_succ_cons, List.take_succ_cons, htake], hlt⟩

theorem not_head (h : Above rank p q) : ¬ p <+: q := by
  intro hpre
  obtain ⟨d, -, hlt⟩ := h
  have hd : d < p.length := lt_length_of_rankAt_pos (Nat.zero_lt_of_lt hlt)
  rw [rankAt_of_head hpre hd] at hlt
  exact Nat.lt_irrefl _ hlt

theorem length_lt (h : Above rank p q) (hp : p <+: s) (hq : q <+: s) : q.length < p.length := by
  by_contra hlen
  exact h.not_head (List.prefix_of_prefix_length_le hp hq (by omega))

theorem rankAt_le (h : Above rank p q) (hk : p.take k = q.take k) :
    rankAt rank q k ≤ rankAt rank p k := by
  obtain ⟨d, hd, hlt⟩ := h
  rcases Nat.lt_trichotomy d k with hdk | hdk | hdk
  · rw [rankAt_congr hk hdk] at hlt
    omega
  · subst hdk
    omega
  · rw [rankAt_congr hd hdk]

end Above

end Infra
