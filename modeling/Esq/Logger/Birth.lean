import Esq.Logger.Turn
import Esq.Logger.Flush

/-!
# buffer の古さ

buffer に残る byte のうち最も古いものが、何番目に受け取った文字列かを、buffer ごとに控える。
区間の並びは、その順である。だから先頭が最も古い。
-/

namespace Esq

open Infra

/-- 区間は古い順に並ぶ。`n` は、それまでに受け取った文字列の数である。 -/
structure Births (l : EsqLogger) (older : List LogBufIdx) (birth : LogBufIdx → Nat) (n : Nat) :
    Prop where
  ordered : (l.window older).Pairwise fun i j => 0 < (l.bufOffset j).val → birth i < birth j
  bounded : ∀ i, 0 < (l.bufOffset i).val → birth i < n

section

variable {l l' : EsqLogger} {older older' : List LogBufIdx} {birth : LogBufIdx → Nat} {n : Nat}
  {new : List UInt8} {pc : FlushPc} {r : Option FlushPc}

theorem Grown.older_sublist (h : Grown l l' older older' new) :
    older'.Sublist (l.window older) := by
  rcases h.window with hw | hw
  · rw [← hw]
    exact List.sublist_append_left _ _
  · rw [List.append_cancel_right (show older' ++ [l'.userIdx] = l.window older ++ [l'.userIdx]
      from hw)]

theorem LoggerInv.mem_window (h : LoggerInv l older) {i : LogBufIdx}
    (hi : 0 < (l.bufOffset i).val) : i ∈ l.window older := by
  by_contra hm
  have := h.empty_zero i (h.outside i hm)
  omega

theorem Grown.window_eq (h : Grown l l' older older' new) (hinv : LoggerInv l older)
    (hpos : 0 < (l.bufOffset l'.userIdx).val) : l'.window older' = l.window older := by
  rcases h.window with hw | hw
  · exact hw
  · have hnodup := h.inv.ring.nodup
    rw [hw] at hnodup
    exact absurd rfl ((List.nodup_append.mp hnodup).2.2 _ (hinv.mem_window hpos) _
      (List.mem_singleton_self _))

theorem Grown.offset_of_ne (h : Grown l l' older older' new) {i : LogBufIdx}
    (hi : i ≠ l'.userIdx) : (l'.bufOffset i).val = (l.bufOffset i).val := by
  rw [h.offset i, if_neg hi, Nat.add_zero]

theorem Births.kept (h : Births l older birth n) (hinv : LoggerInv l older)
    (hg : Grown l l' older older' []) : Births l' older' birth n := by
  have hoffset : ∀ i, (l'.bufOffset i).val = (l.bufOffset i).val := by
    intro i
    rw [hg.offset i]
    simp
  refine ⟨?_, fun i hi => h.bounded i (hoffset i ▸ hi)⟩
  have hmono : ∀ {i j : LogBufIdx}, (0 < (l.bufOffset j).val → birth i < birth j) →
      0 < (l'.bufOffset j).val → birth i < birth j := by
    intro i j hij hj
    rw [hoffset j] at hj
    exact hij hj
  by_cases huser : 0 < (l.bufOffset l'.userIdx).val
  · rw [hg.window_eq hinv huser]
    exact h.ordered.imp hmono
  · unfold EsqLogger.window
    refine List.pairwise_append.mpr
      ⟨(h.ordered.sublist hg.older_sublist).imp hmono, List.pairwise_singleton _ _, ?_⟩
    intro i _ j hj hpos
    rw [List.mem_singleton.mp hj, hoffset] at hpos
    exact absurd hpos huser

theorem Births.grown (h : Births l older birth n) (hinv : LoggerInv l older)
    (hg : Grown l l' older older' new) :
    Births l' older'
      (if (l'.bufOffset l'.userIdx).val = new.length then Function.update birth l'.userIdx n
        else birth) (n + 1) := by
  have huser : (l'.bufOffset l'.userIdx).val = (l.bufOffset l'.userIdx).val + new.length := by
    rw [hg.offset, if_pos rfl]
  by_cases hfresh : (l.bufOffset l'.userIdx).val = 0
  · rw [if_pos (by omega)]
    have hne : ∀ i ∈ older', i ≠ l'.userIdx := by
      rintro i hi rfl
      exact hg.inv.user_notMem hi
    refine ⟨List.pairwise_append.mpr ⟨?_, List.pairwise_singleton _ _, ?_⟩, ?_⟩
    · refine (h.ordered.sublist hg.older_sublist).imp_of_mem ?_
      intro i j hi hj hij hpos
      rw [hg.offset_of_ne (hne j hj)] at hpos
      rw [Function.update_of_ne (hne i hi), Function.update_of_ne (hne j hj)]
      exact hij hpos
    · -- 前の buffer は、どれも前に受け取ったものを持つ
      intro i hi j hj _
      rw [List.mem_singleton.mp hj, Function.update_self, Function.update_of_ne (hne i hi)]
      refine h.bounded i ?_
      rw [← hg.offset_of_ne (hne i hi)]
      exact hg.inv.full_pos i (hg.inv.full i hi)
    · intro i hi
      by_cases hiu : i = l'.userIdx
      · rw [hiu, Function.update_self]
        exact Nat.lt_succ_self n
      · rw [hg.offset_of_ne hiu] at hi
        rw [Function.update_of_ne hiu]
        exact Nat.lt_succ_of_lt (h.bounded i hi)
  · rw [if_neg (by omega)]
    have hpos : ∀ i, 0 < (l'.bufOffset i).val → 0 < (l.bufOffset i).val := by
      intro i hi
      by_cases hiu : i = l'.userIdx
      · rw [hiu]
        omega
      · rw [hg.offset_of_ne hiu] at hi
        exact hi
    refine ⟨?_, fun i hi => Nat.lt_succ_of_lt (h.bounded i (hpos i hi))⟩
    rw [hg.window_eq hinv (by omega)]
    exact h.ordered.imp fun hij hj => hij (hpos _ hj)

theorem Births.flushed (h : Births l older birth n) (hf : Flushed l l' older older' pc r) :
    Births l' older' birth n :=
  ⟨(h.ordered.sublist hf.window).imp fun hij hj => hij (hf.offset _ hj),
    fun i hi => h.bounded i (hf.offset i hi)⟩

theorem Births.head_le (h : Births l older birth n) (hinv : LoggerInv l older) {i : LogBufIdx}
    (hi : 0 < (l.bufOffset i).val) : birth (l.head older) ≤ birth i := by
  have hm := hinv.mem_window hi
  have hordered := h.ordered
  rw [l.window_eq older] at hm hordered
  rcases List.mem_cons.mp hm with rfl | hm
  · exact le_rfl
  · exact ((List.pairwise_cons.mp hordered).1 i hm hi).le

end

end Esq
