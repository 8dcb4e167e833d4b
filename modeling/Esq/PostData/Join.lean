import Esq.PostData.RoundTrip

/-!
# 続いた値を繋ぐ

値は、buffer の切れ目で分かれて渡ることがある。続いた値を一つに繋いで比べる。
-/

namespace Esq

open Infra

def joinValues : List PostElement → List PostElement
  | [] => []
  | e :: es =>
    match e.etype, joinValues es with
    | .value, ⟨.value, b⟩ :: r => ⟨.value, e.bytes ++ b⟩ :: r
    | _, r => e :: r

/-- 種類 `e` の後に渡した要素 `es` と `fs` は、繋げば同じである。値の途中なら、値の続きとして繋ぐ。 -/
def Same (e : PostEt) (es fs : List PostElement) : Prop :=
  if e = .value then joinValues (⟨.value, []⟩ :: es) = joinValues (⟨.value, []⟩ :: fs)
  else joinValues es = joinValues fs

section

variable {line a b c d : List UInt8} {e e' : PostEt} {ts ts' : List PostToken} {x : PostToken}
  {es fs gs : List PostElement} {n : Nat}

theorem joinValues_cons_of_ne {y : PostElement} (hy : y.etype ≠ .value) (es : List PostElement) :
    joinValues (y :: es) = y :: joinValues es := by
  obtain ⟨k, bytes⟩ := y
  cases k with
  | value => exact absurd rfl hy
  | _ => rfl

theorem joinValues_value (es : List PostElement) :
    ∃ c r, ∀ a, joinValues (⟨.value, a⟩ :: es) = ⟨.value, a ++ c⟩ :: r := by
  cases hes : joinValues es with
  | nil =>
    refine ⟨[], [], fun a => ?_⟩
    rw [joinValues, hes, List.append_nil]
  | cons y r =>
    obtain ⟨k, bytes⟩ := y
    by_cases hk : k = .value
    · subst hk
      refine ⟨bytes, r, fun a => ?_⟩
      rw [joinValues, hes]
    · refine ⟨[], ⟨k, bytes⟩ :: r, fun a => ?_⟩
      rw [joinValues, hes, List.append_nil]
      cases k with
      | value => exact absurd rfl hk
      | _ => rfl

theorem joinValues_value_value (a b : List UInt8) (es : List PostElement) :
    joinValues (⟨.value, a⟩ :: ⟨.value, b⟩ :: es) = joinValues (⟨.value, a ++ b⟩ :: es) := by
  obtain ⟨c, r, h⟩ := joinValues_value es
  have h' : joinValues (⟨.value, a⟩ :: ⟨.value, b⟩ :: es) = ⟨.value, a ++ (b ++ c)⟩ :: r := by
    rw [joinValues, h b]
  rw [h', h, List.append_assoc]

theorem joinValues_cancel : joinValues (⟨.value, a ++ b⟩ :: es) = joinValues (⟨.value, a ++ c⟩ :: fs) ↔
    joinValues (⟨.value, b⟩ :: es) = joinValues (⟨.value, c⟩ :: fs) := by
  obtain ⟨u, r, h⟩ := joinValues_value es
  obtain ⟨v, q, h'⟩ := joinValues_value fs
  rw [h, h', h, h']
  simp [List.append_assoc]

theorem same_token (h : Tokens line e (x :: ts)) :
    Same e (x.emitted line e ++ fs) (x.elements line ++ gs) ↔ Same x.after fs gs := by
  have hafter : Same x.after fs gs ↔ joinValues fs = joinValues gs := by
    rw [Same, if_neg x.after_ne_value]
  -- 値でない要素は、繋がらずに残る
  have hother : ∀ {y : PostElement} {fs gs : List PostElement}, y.etype ≠ .value →
      (joinValues (y :: fs) = joinValues (y :: gs) ↔ joinValues fs = joinValues gs) := by
    intro y fs gs hy
    rw [joinValues_cons_of_ne hy, joinValues_cons_of_ne hy, List.cons.injEq]
    exact and_iff_right rfl
  have hvalue : ∀ a b, (joinValues (⟨.value, a⟩ :: ⟨.boundary, b⟩ :: fs)
      = joinValues (⟨.value, a⟩ :: ⟨.boundary, b⟩ :: gs) ↔ joinValues fs = joinValues gs) := by
    intro a b
    have hshape : ∀ fs, joinValues (⟨.value, a⟩ :: ⟨.boundary, b⟩ :: fs)
        = ⟨.value, a⟩ :: ⟨.boundary, b⟩ :: joinValues fs := by
      intro fs
      rw [joinValues, joinValues_cons_of_ne (y := ⟨.boundary, b⟩) (fun h => nomatch h)]
    rw [hshape, hshape]
    simp
  rw [hafter]
  cases h with
  | @rest v k ts hs h =>
    rw [Same, if_pos rfl]
    cases v with
    | nil =>
      show joinValues (⟨.value, []⟩ :: ⟨.boundary, delimiter line ++ [k]⟩ :: fs)
        = joinValues (⟨.value, []⟩ :: ⟨.value, []⟩ :: ⟨.boundary, delimiter line ++ [k]⟩ :: gs) ↔ _
      rw [joinValues_value_value]
      exact hvalue [] _
    | cons c v =>
      show joinValues (⟨.value, []⟩ :: ⟨.value, c :: v⟩ :: ⟨.boundary, delimiter line ++ [k]⟩ :: fs)
        = joinValues (⟨.value, []⟩ :: ⟨.value, c :: v⟩ :: ⟨.boundary, delimiter line ++ [k]⟩ :: gs) ↔ _
      rw [joinValues_value_value, joinValues_value_value]
      exact hvalue _ _
  | value hs h =>
    rw [Same, if_neg (fun h => nomatch h)]
    exact hvalue _ _
  | _ =>
    rw [Same, if_neg (fun h => nomatch h)]
    show joinValues (_ :: fs) = joinValues (_ :: gs) ↔ _
    refine hother ?_
    exact fun h => nomatch h

/-- **切れ目までに渡した要素を除いて、残りを比べればよい。** -/
theorem Emits.same_iff (h : Emits line e ts n es e' ts') (ht : Tokens line e ts) (fs : List PostElement) :
    Same e (es ++ fs) (tokenElements line ts) ↔ Same e' fs (tokenElements line ts') := by
  induction h with
  | here e ts => exact Iff.rfl
  | @part e v w k ts hv =>
    have hpart : joinValues (⟨.value, v⟩ :: fs)
        = joinValues (⟨.value, v ++ w⟩ :: ⟨.boundary, delimiter line ++ [k]⟩ :: tokenElements line ts) ↔
        joinValues (⟨.value, []⟩ :: fs)
          = joinValues (⟨.value, w⟩ :: ⟨.boundary, delimiter line ++ [k]⟩ :: tokenElements line ts) := by
      conv_lhs => rw [← List.append_nil v, List.append_assoc, List.nil_append]
      exact joinValues_cancel
    have hrest : Same .value fs (tokenElements line (.value w k :: ts)) ↔ joinValues (⟨.value, []⟩ :: fs)
        = joinValues (⟨.value, w⟩ :: ⟨.boundary, delimiter line ++ [k]⟩ :: tokenElements line ts) := by
      rw [Same, if_pos rfl]
      exact iff_of_eq (congrArg _ (joinValues_value_value [] w _))
    rw [hrest, ← hpart]
    cases ht with
    | value hs h => exact Iff.rfl
    | rest hs h =>
      rw [Same, if_pos rfl]
      exact iff_of_eq (congrArg₂ _ (joinValues_value_value [] v _) (joinValues_value_value [] (v ++ w) _))
  | @next e e' x ts ts' n es h hct ih =>
    rw [List.append_assoc, tokenElements_cons, same_token ht]
    exact ih ht.tail

end

end Esq
