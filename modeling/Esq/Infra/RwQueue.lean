import Mathlib.Data.List.Basic
import Mathlib.Data.List.Nodup
import Mathlib.Data.List.TakeWhile

/-!
# 先着順の読み書きの待ち行列

待ち行列の先頭が書きならその一つだけ、読みなら先頭から続く読みのすべてが許されている
（`granted`）。末尾への追加と、許されているものの取り出しで `granted` がどう変わるかを調べる。
要求の型は問わず、書きかどうかを言う述語だけを使う。
-/

namespace Infra

variable {α : Type*} (w : α → Bool)

def granted : List α → List α
  | [] => []
  | x :: xs => if w x then [x] else x :: xs.takeWhile (fun y => !w y)

variable {w} {x y : α} {q xs : List α}

@[simp] theorem granted_nil : granted w [] = [] := rfl

theorem granted_cons_write (h : w x = true) : granted w (x :: xs) = [x] := by simp [granted, h]

theorem granted_cons_read (h : w x = false) :
    granted w (x :: xs) = (x :: xs).takeWhile (fun y => !w y) := by simp [granted, h]

theorem granted_sublist (q : List α) : (granted w q).Sublist q := by
  cases q with
  | nil => exact List.Sublist.refl _
  | cons x xs =>
    cases hx : w x with
    | true =>
      rw [granted_cons_write hx]
      exact (List.nil_sublist xs).cons_cons x
    | false =>
      rw [granted_cons_read hx]
      exact List.takeWhile_sublist _

theorem granted_subset (h : x ∈ granted w q) : x ∈ q := (granted_sublist q).subset h

/-- **許されているのは、書き一つか、読みだけである。** -/
theorem granted_exclusive (q : List α) :
    (∃ x, granted w q = [x] ∧ w x = true) ∨ ∀ x ∈ granted w q, w x = false := by
  cases q with
  | nil => exact Or.inr (by simp)
  | cons x xs =>
    cases hx : w x with
    | true => exact Or.inl ⟨x, granted_cons_write hx, hx⟩
    | false =>
      refine Or.inr fun y hy => ?_
      rw [granted_cons_read hx] at hy
      simpa using List.mem_takeWhile_imp hy

/-! ## 末尾への追加 -/

theorem granted_singleton : granted w [x] = [x] := by
  simp [granted]

theorem takeWhile_append_singleton_of_write (h : ∃ y ∈ q, w y = true) :
    (q ++ [x]).takeWhile (fun y => !w y) = q.takeWhile (fun y => !w y) := by
  obtain ⟨y, hy, hw⟩ := h
  rw [List.takeWhile_append]
  refine if_neg fun he => ?_
  have hself := (List.takeWhile_sublist (fun y => !w y)).eq_of_length he
  simpa [hw] using List.takeWhile_eq_self_iff.mp hself y hy

/--
**末尾に足した要求は、行列が空か、自分も含めてすべて読みのときだけすぐ許される。**

すでに許されているものは変わらない。
-/
theorem granted_append_singleton :
    granted w (q ++ [x])
      = granted w q
        ++ if q = [] ∨ (w x = false ∧ ∀ y ∈ q, w y = false) then [x] else [] := by
  cases q with
  | nil => simpa using granted_singleton
  | cons z zs =>
    cases hz : w z with
    | true => simp [granted, hz]
    | false =>
      rw [List.cons_append, granted_cons_read hz, granted_cons_read hz, ← List.cons_append]
      by_cases hall : ∀ y ∈ z :: zs, w y = false
      · have hself : (z :: zs).takeWhile (fun y => !w y) = z :: zs :=
          List.takeWhile_eq_self_iff.mpr fun y hy => by simp [hall y hy]
        rw [List.takeWhile_append_of_pos fun y hy => by simp [hall y hy], hself]
        cases hx : w x with
        | true => simp [hx]
        | false => rw [if_pos (Or.inr ⟨rfl, hall⟩)]; simp [hx]
      · have hwrite : ∃ y ∈ z :: zs, w y = true := by
          by_contra hno
          exact hall fun y hy => Bool.eq_false_iff.mpr fun hw => hno ⟨y, hy, hw⟩
        rw [takeWhile_append_singleton_of_write hwrite, if_neg fun h => ?_, List.append_nil]
        rcases h with h | h
        · exact absurd h (List.cons_ne_nil _ _)
        · exact hall h.2

/-! ## 許されているものの取り出し -/

theorem granted_append_cons_read {pre post : List α} (hpre : ∀ y ∈ pre, w y = false)
    (hx : w x = false) :
    granted w (pre ++ x :: post) = pre ++ x :: post.takeWhile (fun y => !w y) := by
  have htake : ((pre ++ x :: post).takeWhile fun y => !w y)
      = pre ++ x :: post.takeWhile (fun y => !w y) := by
    rw [List.takeWhile_append_of_pos fun y hy => by simp [hpre y hy]]
    simp [hx]
  cases pre with
  | nil => rw [List.nil_append, granted_cons_read hx]; exact htake
  | cons z zs =>
    rw [List.cons_append, granted_cons_read (hpre z List.mem_cons_self), ← List.cons_append]
    exact htake

theorem granted_append_of_reads {pre post : List α} (hpre : ∀ y ∈ pre, w y = false)
    (hne : pre ≠ []) : granted w (pre ++ post) = pre ++ post.takeWhile (fun y => !w y) := by
  cases pre with
  | nil => exact absurd rfl hne
  | cons z zs =>
    rw [List.cons_append, granted_cons_read (hpre z List.mem_cons_self), ← List.cons_append,
      List.takeWhile_append_of_pos fun y hy => by simp [hpre y hy]]

theorem granted_split {pre post : List α} (hnd : (pre ++ x :: post).Nodup)
    (hx : x ∈ granted w (pre ++ x :: post)) :
    (w x = true ∧ pre = []) ∨ (w x = false ∧ ∀ y ∈ pre, w y = false) := by
  have hxpre : x ∉ pre := fun hm => (List.nodup_append.mp hnd).2.2 x hm x List.mem_cons_self rfl
  cases pre with
  | nil => cases hw : w x <;> simp
  | cons z zs =>
    have hzx : x ≠ z := fun he => hxpre (by simp [he])
    cases hz : w z with
    | true =>
      rw [List.cons_append, granted_cons_write hz] at hx
      simp [hzx] at hx
    | false =>
      rw [List.cons_append, granted_cons_read hz, ← List.cons_append] at hx
      -- 手前に書きがあれば `takeWhile` はそこで止まり、`x` まで届かない
      have hpre : ∀ y ∈ z :: zs, w y = false := by
        intro y hy
        refine Bool.eq_false_iff.mpr fun hwy => ?_
        rw [List.takeWhile_append] at hx
        split at hx
        · next hlen =>
          have hself := (List.takeWhile_sublist (fun y => !w y)).eq_of_length hlen
          simpa [hwy] using List.takeWhile_eq_self_iff.mp hself y hy
        · exact hxpre ((List.takeWhile_sublist _).subset hx)
      have hwx := List.mem_takeWhile_imp hx
      exact Or.inr ⟨by simpa using hwx, hpre⟩

/--
`x` を抜くと何が起きるかは二つに分かれる。

`x` だけが許されていたのなら `x` は先頭で、残りの行列が改めて許される。
そうでなければ、残りの行列で許されるものは `x` を除いて変わらない。
-/
theorem granted_remove_cases [DecidableEq α] {pre post : List α} (hnd : (pre ++ x :: post).Nodup)
    (hx : x ∈ granted w (pre ++ x :: post)) :
    (pre = [] ∧ granted w (pre ++ x :: post) = [x] ∧
      (w x = true ∨ ∃ y ys, post = y :: ys ∧ w y = true)) ∨
    (w x = false ∧ (∀ y ∈ pre, w y = false) ∧
      granted w (pre ++ post) = (granted w (pre ++ x :: post)).erase x ∧
      (pre = [] → ∀ y ys, post = y :: ys → w y = false)) := by
  rcases granted_split hnd hx with ⟨hw, rfl⟩ | ⟨hr, hpre⟩
  · exact Or.inl ⟨rfl, granted_cons_write hw, Or.inl hw⟩
  · have hq : granted w (pre ++ x :: post) = pre ++ x :: post.takeWhile fun y => !w y :=
      granted_append_cons_read hpre hr
    have hxpre : x ∉ pre := fun hm => (List.nodup_append.mp hnd).2.2 x hm x List.mem_cons_self rfl
    have herase : (granted w (pre ++ x :: post)).erase x
        = pre ++ post.takeWhile fun y => !w y := by
      rw [hq, List.erase_append_right _ hxpre, List.erase_cons_head]
    cases pre with
    | cons z zs =>
      refine Or.inr ⟨hr, hpre, ?_, fun h => absurd h (List.cons_ne_nil _ _)⟩
      rw [herase, granted_append_of_reads hpre (List.cons_ne_nil _ _)]
    | nil =>
      cases post with
      | nil =>
        refine Or.inr ⟨hr, hpre, ?_, fun _ y ys h => absurd h (by simp)⟩
        rw [herase]
        rfl
      | cons y ys =>
        cases hy : w y with
        | true =>
          refine Or.inl ⟨rfl, ?_, Or.inr ⟨y, ys, rfl, hy⟩⟩
          rw [hq]
          simp [hy]
        | false =>
          refine Or.inr ⟨hr, hpre, ?_, fun _ z zs h => ?_⟩
          · rw [herase, List.nil_append, granted_cons_read hy, List.nil_append]
          · rw [← (List.cons.inj h).1]
            exact hy

theorem granted_map {β : Type*} {w : β → Bool} (f : α → β) (q : List α) :
    (granted (fun a => w (f a)) q).map f = granted w (q.map f) := by
  cases q with
  | nil => rfl
  | cons x xs =>
    cases hx : w (f x) with
    | true =>
      rw [granted_cons_write (w := fun a => w (f a)) hx]
      exact (granted_cons_write hx).symm
    | false =>
      rw [granted_cons_read (w := fun a => w (f a)) hx, List.map_cons, granted_cons_read hx,
        ← List.map_cons, List.takeWhile_map]
      rfl

end Infra
