import Mathlib.Data.List.Infix

/-!
# 部分列を探す

列 `s` の中で `pat` が初めて現れる位置（`findInfix`）。
-/

namespace Infra

variable {α : Type*} [DecidableEq α] {pat s t u : List α} {j k : Nat}

def findInfix (pat : List α) : List α → Option Nat
  | [] => if pat = [] then some 0 else none
  | c :: s => if pat.isPrefixOf (c :: s) then some 0 else (findInfix pat s).map (· + 1)

/-- **見つけた位置に `pat` があり、それより前には無い。** -/
theorem findInfix_eq_some_iff : ∀ {s : List α} {k : Nat}, findInfix pat s = some k ↔
    k ≤ s.length ∧ pat <+: s.drop k ∧ ∀ j < k, ¬pat <+: s.drop j := by
  intro s
  induction s with
  | nil =>
    intro k
    unfold findInfix
    constructor
    · intro h
      split at h
      · next hpat =>
        obtain rfl : 0 = k := Option.some.inj h
        exact ⟨le_rfl, hpat ▸ List.nil_prefix, fun j hj => absurd hj (Nat.not_lt_zero j)⟩
      · cases h
    · rintro ⟨hk, hpat, -⟩
      rw [List.drop_nil, List.prefix_nil] at hpat
      rw [if_pos hpat, Nat.le_zero.mp hk]
  | cons c s ih =>
    intro k
    unfold findInfix
    by_cases hpat : pat <+: c :: s
    · rw [if_pos (List.isPrefixOf_iff_prefix.mpr hpat)]
      constructor
      · intro h
        obtain rfl : 0 = k := Option.some.inj h
        exact ⟨Nat.zero_le _, hpat, fun j hj => absurd hj (Nat.not_lt_zero j)⟩
      · rintro ⟨-, -, hfirst⟩
        rcases Nat.eq_zero_or_pos k with rfl | hk
        · rfl
        · exact absurd hpat (hfirst 0 hk)
    · rw [if_neg fun h => hpat (List.isPrefixOf_iff_prefix.mp h)]
      cases k with
      | zero =>
        refine iff_of_false (fun h => ?_) fun h => hpat h.2.1
        obtain ⟨j, -, hj⟩ := Option.map_eq_some_iff.mp h
        exact Nat.succ_ne_zero j hj
      | succ k =>
        have hmap : (findInfix pat s).map (· + 1) = some (k + 1) ↔ findInfix pat s = some k := by
          simp
        rw [hmap, ih, List.drop_succ_cons, List.length_cons, Nat.succ_le_succ_iff]
        refine and_congr_right fun _ => and_congr_right fun _ => ⟨fun h j hj => ?_, fun h j hj => ?_⟩
        · cases j with
          | zero => exact hpat
          | succ j => exact h j (Nat.lt_of_succ_lt_succ hj)
        · exact h (j + 1) (Nat.succ_lt_succ hj)

theorem findInfix_eq_none_iff (hpat : pat ≠ []) :
    findInfix pat s = none ↔ ∀ j, ¬pat <+: s.drop j := by
  constructor
  · intro h j
    induction s generalizing j with
    | nil =>
      rw [List.drop_nil, List.prefix_nil]
      exact hpat
    | cons c s ih =>
      unfold findInfix at h
      split at h
      · cases h
      · next hno =>
        cases j with
        | zero => exact fun hp => hno (List.isPrefixOf_iff_prefix.mpr hp)
        | succ j => exact ih (Option.map_eq_none_iff.mp h) j
  · intro h
    cases hfind : findInfix pat s with
    | none => rfl
    | some k => exact absurd (findInfix_eq_some_iff.mp hfind).2.1 (h k)

theorem findInfix_append (h : findInfix pat s = some k) (t : List α) :
    findInfix pat (s ++ t) = some k := by
  obtain ⟨hk, hpat, hfirst⟩ := findInfix_eq_some_iff.mp h
  refine findInfix_eq_some_iff.mpr ⟨?_, ?_, fun j hj hp => hfirst j hj ?_⟩
  · rw [List.length_append]
    exact hk.trans (Nat.le_add_right _ _)
  · rw [List.drop_append_of_le_length hk]
    exact hpat.trans (List.prefix_append _ _)
  · -- `k` までに収まるので、続く列には届かない
    have hlen : pat.length ≤ (s.drop j).length := by
      have := hpat.length_le
      rw [List.length_drop] at this ⊢
      omega
    rw [List.drop_append_of_le_length (hj.le.trans hk)] at hp
    exact List.prefix_of_prefix_length_le hp (List.prefix_append _ _) hlen

theorem findInfix_drop (h : findInfix pat s = some k) (hj : j ≤ k) :
    findInfix pat (s.drop j) = some (k - j) := by
  obtain ⟨hk, hpat, hfirst⟩ := findInfix_eq_some_iff.mp h
  refine findInfix_eq_some_iff.mpr ⟨?_, ?_, fun i hi => ?_⟩
  · rw [List.length_drop]
    omega
  · rw [List.drop_drop, Nat.add_sub_cancel' hj]
    exact hpat
  · rw [List.drop_drop]
    exact hfirst (j + i) (by omega)

theorem findInfix_split (h : findInfix pat s = some k) :
    ∃ t, s = s.take k ++ (pat ++ t) ∧ (s.take k).length = k ∧
      findInfix pat (s.take k ++ pat) = some (s.take k).length := by
  obtain ⟨hk, ⟨t, ht⟩, hfirst⟩ := findInfix_eq_some_iff.mp h
  have hlen : (s.take k).length = k := by
    rw [List.length_take, Nat.min_eq_left hk]
  have hs : s = s.take k ++ (pat ++ t) := by
    rw [ht, List.take_append_drop]
  refine ⟨t, hs, hlen, findInfix_eq_some_iff.mpr ⟨?_, ?_, fun j hj hp => hfirst j (hlen ▸ hj) ?_⟩⟩
  · rw [List.length_append]
    exact Nat.le_add_right _ _
  · rw [List.drop_left]
  · refine hp.trans ?_
    conv_rhs => rw [hs, ← List.append_assoc]
    exact (List.prefix_append _ _).drop j

theorem findInfix_of_append (h : findInfix pat (u ++ s) = some (u.length + k)) :
    findInfix pat s = some k := by
  have hdrop := findInfix_drop h (Nat.le_add_right _ _)
  rwa [List.drop_left, Nat.add_sub_cancel_left] at hdrop

theorem findInfix_eq_none_of_prefix (hpat : pat ≠ []) (h : findInfix pat (s ++ pat) = some s.length)
    (ht : t <+: pat) (hne : t ≠ pat) : findInfix pat (s ++ t) = none := by
  refine (findInfix_eq_none_iff hpat).mpr fun j hj => ?_
  obtain ⟨-, -, hfirst⟩ := findInfix_eq_some_iff.mp h
  have hlt : t.length < pat.length := by
    refine lt_of_le_of_ne ht.length_le fun he => hne (ht.eq_of_length he)
  have hpos : 0 < pat.length := List.length_pos_iff.mpr hpat
  have hle := hj.length_le
  rw [List.length_drop, List.length_append] at hle
  have hjs : j < s.length := by omega
  refine hfirst j hjs (hj.trans ?_)
  rw [List.drop_append_of_le_length hjs.le, List.drop_append_of_le_length hjs.le]
  exact (List.prefix_append_right_inj _).mpr ht

theorem findInfix_none_of_isPrefix (hpat : pat ≠ []) (h : findInfix pat s = none) (ht : t <+: s) :
    findInfix pat t = none :=
  (findInfix_eq_none_iff hpat).mpr fun j hj => (findInfix_eq_none_iff hpat).mp h j
    (hj.trans (ht.drop j))

theorem findInfix_append_eq_none {b : α} (h : findInfix (u ++ [b]) s = none) (ht : b ∉ t) :
    findInfix (u ++ [b]) (s ++ t) = none := by
  have hpat : u ++ [b] ≠ [] := by simp
  refine (findInfix_eq_none_iff hpat).mpr fun j hj => ?_
  have hno := (findInfix_eq_none_iff hpat).mp h j
  rw [List.drop_append] at hj
  rcases List.prefix_or_prefix_of_prefix hj (List.prefix_append _ _) with hin | ⟨w, hw⟩
  · exact hno hin
  · rw [← hw, List.prefix_append_right_inj] at hj
    rcases List.eq_nil_or_concat w with rfl | ⟨w, c, rfl⟩
    · rw [List.append_nil] at hw
      rw [hw] at hno
      exact hno (List.prefix_refl _)
    · -- かかるなら、終わりの要素は `t` にある
      rw [List.concat_eq_append, ← List.append_assoc] at hw
      obtain ⟨-, hc⟩ := List.append_inj' hw rfl
      obtain rfl : c = b := List.cons.inj hc |>.1
      refine ht (List.mem_of_mem_drop (hj.subset ?_))
      rw [List.concat_eq_append]
      exact List.mem_append_right _ (List.mem_singleton_self c)

theorem findInfix_append_self {a : α} (hs : ¬a :: u <:+: s) (ha : a ∉ u) :
    findInfix (a :: u) (s ++ a :: u) = some s.length := by
  refine findInfix_eq_some_iff.mpr ⟨?_, ?_, fun j hj hp => ?_⟩
  · rw [List.length_append]
    exact Nat.le_add_right _ _
  · rw [List.drop_left]
  · rw [List.drop_append_of_le_length hj.le] at hp
    rcases List.prefix_or_prefix_of_prefix hp (List.prefix_append _ _) with hin | hover
    · exact hs (hin.isInfix.trans (List.drop_suffix j s).isInfix)
    · -- 重なって現れるなら、`pat` の途中に初めの要素がある
      obtain ⟨w, hw⟩ := hover
      rw [← hw, List.prefix_append_right_inj] at hp
      obtain ⟨d, ds, hd⟩ := List.exists_cons_of_length_pos (l := s.drop j) (by
        rw [List.length_drop]
        omega)
      rw [hd, List.cons_append] at hw
      obtain ⟨rfl, hu⟩ := List.cons.inj hw
      cases w with
      | nil =>
        rw [List.append_nil] at hu
        rw [← hu, ← hd] at hs
        exact hs (List.drop_suffix j s).isInfix
      | cons b w =>
        rw [hd, List.cons_append, List.cons_prefix_cons] at hp
        obtain ⟨rfl, -⟩ := hp
        exact ha (hu ▸ List.mem_append_right _ List.mem_cons_self)

end Infra
