import Mathlib.Data.List.Basic
import Mathlib.Data.List.Pairwise
import Mathlib.Data.List.Perm.Basic

/-!
# key の等しい要素を集める

要素を一つずつ、先頭の key が等しい group の末尾に足し、無ければ新しい group を作る。

* `Grouped key gs` — どの group も空でなく、二つの要素が同じ group にあることと、
  key が等しいこととが一致する
* `Grouped.insert`、`insertGroup_perm` — 一つ足しても `Grouped` で、要素はちょうど一つ増える
* `Grouped.mem_chosen` — 先頭の key で group を選ぶと、要素を key で選んだことになる
-/

namespace Infra

variable {α β κ : Type*}

def insertGroup [DecidableEq κ] (key : α → κ) : List (List α) → α → List (List α)
  | [], a => [[a]]
  | g :: gs, a =>
    if g.head?.map key = some (key a) then (g ++ [a]) :: gs else g :: insertGroup key gs a

/-- どの要素も、key の等しい group にちょうど集まっている。 -/
structure Grouped (key : α → κ) (gs : List (List α)) : Prop where
  nonempty : ∀ g ∈ gs, g ≠ []
  uniform : ∀ g ∈ gs, ∀ x ∈ g, ∀ y ∈ g, key x = key y
  distinct : gs.Pairwise fun g g' => ∀ x ∈ g, ∀ y ∈ g', key x ≠ key y

def groupHeads (gs : List (List α)) : List α := gs.filterMap List.head?

section

variable {key : α → κ} {gs : List (List α)} {g : List α} {a : α}

theorem grouped_nil (key : α → κ) : Grouped key [] :=
  ⟨List.forall_mem_nil _, List.forall_mem_nil _, List.Pairwise.nil⟩

theorem Grouped.tail (h : Grouped key (g :: gs)) : Grouped key gs where
  nonempty := (List.forall_mem_cons.mp h.nonempty).2
  uniform := (List.forall_mem_cons.mp h.uniform).2
  distinct := (List.pairwise_cons.mp h.distinct).2

theorem groupHeads_sublist : ∀ gs : List (List α), (groupHeads gs).Sublist gs.flatten
  | [] => List.Sublist.refl _
  | [] :: gs => groupHeads_sublist gs
  | (x :: xs) :: gs => by
    refine List.Sublist.cons_cons x ?_
    exact (groupHeads_sublist gs).trans (List.sublist_append_right xs gs.flatten)

@[simp] theorem groupHeads_append (gs gs' : List (List α)) :
    groupHeads (gs ++ gs') = groupHeads gs ++ groupHeads gs' := List.filterMap_append

@[simp] theorem groupHeads_cons (x : α) (xs : List α) (gs : List (List α)) :
    groupHeads ((x :: xs) :: gs) = x :: groupHeads gs := rfl

theorem mem_of_mem_groupHeads {x : α} (hx : x ∈ groupHeads gs) : ∃ g ∈ gs, x ∈ g := by
  obtain ⟨g, hg, hhead⟩ := List.mem_filterMap.mp hx
  exact ⟨g, hg, List.mem_of_head? hhead⟩

theorem Grouped.head_key (h : Grouped key gs) (hg : g ∈ gs) {x : α} (hx : x ∈ g) :
    g.head?.map key = some (key x) := by
  cases g with
  | nil => cases hx
  | cons y ys => exact congrArg some (h.uniform _ hg y List.mem_cons_self x hx)

theorem Grouped.length_le : ∀ {gs : List (List α)}, Grouped key gs → gs.length ≤ gs.flatten.length
  | [], _ => Nat.le_refl _
  | g :: gs, h => by
    have hpos := List.length_pos_iff.mpr (h.nonempty g List.mem_cons_self)
    have := h.tail.length_le
    rw [List.length_cons, List.flatten_cons, List.length_append]
    omega

theorem Grouped.same_group (h : Grouped key gs) {g g' : List α} (hg : g ∈ gs) (hg' : g' ∈ gs)
    {x y : α} (hx : x ∈ g) (hy : y ∈ g') (hkey : key x = key y) : g = g' := by
  by_contra hne
  have hsymm : Std.Symm fun g g' : List α => ∀ x ∈ g, ∀ y ∈ g', key x ≠ key y :=
    ⟨fun _ _ hab x hx y hy => (hab y hy x hx).symm⟩
  exact h.distinct.forall hg hg' hne x hx y hy hkey

/-- **先頭の key で group を選ぶと、要素を key で選んだことになる。** -/
theorem Grouped.mem_chosen (h : Grouped key gs) (p : κ → Bool) {x : α} :
    x ∈ (gs.filter fun g => g.head?.any fun y => p (key y)).flatten
      ↔ x ∈ gs.flatten ∧ p (key x) = true := by
  have hhead : ∀ g ∈ gs, x ∈ g → (g.head?.any fun y => p (key y)) = p (key x) := by
    intro g hg hx
    have hany : (g.head?.any fun y => p (key y)) = (g.head?.map key).any p := by
      rw [Option.any_map]
    rw [hany, h.head_key hg hx, Option.any_some]
  simp only [List.mem_flatten, List.mem_filter]
  constructor
  · rintro ⟨g, ⟨hg, hp⟩, hx⟩
    exact ⟨⟨g, hg, hx⟩, (hhead g hg hx).symm.trans hp⟩
  · rintro ⟨⟨g, hg, hx⟩, hp⟩
    exact ⟨g, ⟨hg, (hhead g hg hx).trans hp⟩, hx⟩

end

section

variable [DecidableEq κ] {key : α → κ} {gs : List (List α)} {a : α}

/-- 足す先の group があるか、どの group の key とも違うか。 -/
inductive Inserted (key : α → κ) (gs : List (List α)) (a : α) : List (List α) → Prop where
  | joins (as bs : List (List α)) (g : List α) (hgs : gs = as ++ g :: bs)
    (hbefore : ∀ b ∈ as, ∀ x ∈ b, key x ≠ key a) (hkey : ∀ x ∈ g, key x = key a) :
    Inserted key gs a (as ++ (g ++ [a]) :: bs)
  | opens (hnew : ∀ g ∈ gs, ∀ x ∈ g, key x ≠ key a) : Inserted key gs a (gs ++ [[a]])

theorem Grouped.inserted : ∀ {gs : List (List α)}, Grouped key gs → ∀ a,
    Inserted key gs a (insertGroup key gs a)
  | [], _, a => .opens (List.forall_mem_nil _)
  | g :: gs, h, a => by
    rw [insertGroup]
    split
    next hkey =>
      refine .joins [] gs g rfl (List.forall_mem_nil _) fun x hx => ?_
      exact Option.some.inj ((h.head_key List.mem_cons_self hx).symm.trans hkey)
    next hkey =>
      have hg : ∀ x ∈ g, key x ≠ key a := fun x hx he =>
        hkey ((h.head_key List.mem_cons_self hx).trans (congrArg some he))
      have htail := h.tail.inserted a
      generalize insertGroup key gs a = r at htail
      cases htail with
      | joins as bs g' hgs hbefore hg' =>
        rw [hgs]
        exact .joins (g :: as) bs g' rfl (List.forall_mem_cons.mpr ⟨hg, hbefore⟩) hg'
      | opens hnew => exact .opens (List.forall_mem_cons.mpr ⟨hg, hnew⟩)

theorem insertGroup_perm (key : α → κ) (a : α) : ∀ gs : List (List α),
    (insertGroup key gs a).flatten.Perm (gs.flatten ++ [a])
  | [] => List.Perm.refl _
  | g :: gs => by
    rw [insertGroup]
    split
    · simp only [List.flatten_cons, List.append_assoc]
      exact List.Perm.append_left g List.perm_append_comm
    · simp only [List.flatten_cons, List.append_assoc]
      exact List.Perm.append_left g (insertGroup_perm key a gs)

/-- **一つ足しても、key の等しい要素が集まっている。** -/
theorem Grouped.insert (h : Grouped key gs) (a : α) : Grouped key (insertGroup key gs a) := by
  have hins := h.inserted a
  generalize insertGroup key gs a = r at hins
  cases hins with
  | joins as bs g hgs hbefore hkey =>
    subst hgs
    have hmem : ∀ b, b ∈ as ∨ b ∈ bs → b ∈ as ++ g :: bs := by
      rintro b (hb | hb) <;> simp [hb]
    obtain ⟨has, hgbs, hcross⟩ := List.pairwise_append.mp h.distinct
    obtain ⟨hgb, hbs⟩ := List.pairwise_cons.mp hgbs
    have hgkey : ∀ x ∈ g ++ [a], key x = key a := by
      intro x hx
      rcases List.mem_append.mp hx with hx | hx
      · exact hkey x hx
      · rw [List.mem_singleton.mp hx]
    have hgne : g ≠ [] := h.nonempty g (by simp)
    have hbehind : ∀ b ∈ bs, ∀ y ∈ b, key y ≠ key a := by
      intro b hb y hy he
      obtain ⟨x, hx⟩ := List.exists_mem_of_ne_nil g hgne
      exact hgb b hb x hx y hy ((hkey x hx).trans he.symm)
    refine ⟨fun b hb => ?_, fun b hb => ?_, ?_⟩
    · rcases List.mem_append.mp hb with hb | hb
      · exact h.nonempty b (hmem b (Or.inl hb))
      · rcases List.mem_cons.mp hb with rfl | hb
        · simp
        · exact h.nonempty b (hmem b (Or.inr hb))
    · rcases List.mem_append.mp hb with hb | hb
      · exact h.uniform b (hmem b (Or.inl hb))
      · rcases List.mem_cons.mp hb with rfl | hb
        · exact fun x hx y hy => (hgkey x hx).trans (hgkey y hy).symm
        · exact h.uniform b (hmem b (Or.inr hb))
    · refine List.pairwise_append.mpr ⟨has, List.pairwise_cons.mpr ⟨?_, hbs⟩, ?_⟩
      · intro b hb x hx y hy
        rw [hgkey x hx]
        exact (hbehind b hb y hy).symm
      · intro b hb b' hb' x hx y hy
        rcases List.mem_cons.mp hb' with rfl | hb'
        · rw [hgkey y hy]
          exact hbefore b hb x hx
        · exact hcross b hb b' (List.mem_cons_of_mem g hb') x hx y hy
  | opens hnew =>
    refine ⟨fun b hb => ?_, fun b hb => ?_, ?_⟩
    · rcases List.mem_append.mp hb with hb | hb
      · exact h.nonempty b hb
      · rw [List.mem_singleton.mp hb]
        simp
    · rcases List.mem_append.mp hb with hb | hb
      · exact h.uniform b hb
      · rw [List.mem_singleton.mp hb]
        intro x hx y hy
        rw [List.mem_singleton.mp hx, List.mem_singleton.mp hy]
    · refine List.pairwise_append.mpr ⟨h.distinct, List.pairwise_singleton _ _, ?_⟩
      intro b hb b' hb' x hx y hy
      rw [List.mem_singleton.mp hb'] at hy
      rw [List.mem_singleton.mp hy]
      exact hnew b hb x hx

theorem insertGroup_map (key : β → κ) (f : α → β) (a : α) : ∀ gs : List (List α),
    (insertGroup (fun x => key (f x)) gs a).map (List.map f)
      = insertGroup key (gs.map (List.map f)) (f a)
  | [] => rfl
  | g :: gs => by
    have hhead : ((g.map f).head?.map key) = g.head?.map fun x => key (f x) := by
      cases g <;> rfl
    rw [insertGroup, List.map_cons, insertGroup, hhead]
    split
    · simp
    · rw [List.map_cons, insertGroup_map key f a gs]

end

end Infra
