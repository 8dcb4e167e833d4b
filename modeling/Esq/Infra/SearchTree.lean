import Mathlib.Data.List.Perm.Basic
import Mathlib.Data.List.Nodup

/-!
# 二分探索木

比較の符号だけを見て左右に降りる木。比較は順序になっていなくてもよい。

`insert` は `find` と同じ道を降りて、着いた葉に置く。平衡木は置いた後や外した後に回転するが、
回転は通りがけ順の列を変えない。どう回転したかは外から与える（`rotate`）。

比較が要素の上で全順序になっているとき（`OrderedOn`）に限り、列は比較の順に並び、
木にある要素は自分の key で必ず見つかる。
-/

namespace Infra

inductive SearchTree (α : Type*) where
  | nil
  | node (left : SearchTree α) (elem : α) (right : SearchTree α)
deriving DecidableEq, Repr

namespace SearchTree

variable {α : Type*}

def toList : SearchTree α → List α
  | nil => []
  | node l x r => l.toList ++ x :: r.toList

/-- `c x` は、探している key と `x` の比較である。 -/
def find (c : α → Int) : SearchTree α → Option α
  | nil => none
  | node l x r => if c x < 0 then l.find c else if 0 < c x then r.find c else some x

/-- 葉まで降りて置く。等しい要素に着いたら何もしない。 -/
def insert (c : α → Int) (a : α) : SearchTree α → SearchTree α
  | nil => node nil a nil
  | node l x r =>
    if c x < 0 then node (l.insert c a) x r
    else if 0 < c x then node l x (r.insert c a)
    else node l x r

def join : SearchTree α → SearchTree α → SearchTree α
  | nil, t => t
  | node l x r, t => node l x (r.join t)

theorem toList_join : ∀ s t : SearchTree α, (s.join t).toList = s.toList ++ t.toList
  | nil, _ => rfl
  | node l x r, t => by
    rw [join, toList, toList_join r t, toList, List.append_assoc]
    rfl

variable [DecidableEq α]

def erase (a : α) : SearchTree α → SearchTree α
  | nil => nil
  | node l x r => if x = a then l.join r else node (l.erase a) x (r.erase a)

/-- 回転。列を変える `f` は回転ではない。 -/
def rotate (f : SearchTree α → SearchTree α) (t : SearchTree α) : SearchTree α :=
  if (f t).toList = t.toList then f t else t

@[simp] theorem toList_rotate (f : SearchTree α → SearchTree α) (t : SearchTree α) :
    (t.rotate f).toList = t.toList := by
  unfold rotate
  split
  · assumption
  · rfl

theorem erase_sublist (a : α) : ∀ t : SearchTree α, (t.erase a).toList.Sublist t.toList
  | nil => .refl _
  | node l x r => by
    rw [erase]
    split
    · rw [toList_join, toList]
      exact (List.sublist_cons_self x _).append_left _
    · exact (erase_sublist a l).append ((erase_sublist a r).cons_cons x)

theorem mem_erase_of_ne {a b : α} (h : b ≠ a) : ∀ {t : SearchTree α},
    b ∈ t.toList → b ∈ (t.erase a).toList
  | node l x r, hb => by
    rw [toList, List.mem_append, List.mem_cons] at hb
    rw [erase]
    split
    · next hx =>
      rw [toList_join, List.mem_append]
      exact hb.imp_right fun hb => hb.resolve_left fun he => h (he.trans hx)
    · rw [toList, List.mem_append, List.mem_cons]
      exact hb.imp (mem_erase_of_ne h) (Or.imp_right (mem_erase_of_ne h))

end SearchTree

section

variable {α : Type*} {c : α → Int} {cmp : α → α → Int} {a x : α} {t : SearchTree α}

open SearchTree

theorem SearchTree.find_eq_some : ∀ {t : SearchTree α}, t.find c = some x → x ∈ t.toList ∧ c x = 0
  | nil, h => by cases h
  | node l y r, h => by
    simp only [find] at h
    simp only [toList, List.mem_append, List.mem_cons]
    split at h
    · have := find_eq_some h
      exact ⟨Or.inl this.1, this.2⟩
    · next hlt =>
      split at h
      · have := find_eq_some h
        exact ⟨Or.inr (Or.inr this.1), this.2⟩
      · next hgt =>
        cases h
        exact ⟨Or.inr (Or.inl rfl), by omega⟩

theorem SearchTree.eq_of_toList_eq_singleton (h : t.toList = [x]) : t = node nil x nil := by
  have hnil : ∀ {t : SearchTree α}, t.toList = [] → t = nil := by
    intro t ht
    cases t with
    | nil => rfl
    | node l y r => simp [toList] at ht
  cases t with
  | nil => cases h
  | node l y r =>
    rw [toList, List.append_eq_cons_iff] at h
    rcases h with ⟨hl, hr⟩ | ⟨xs, -, hr⟩
    · obtain ⟨rfl, hr'⟩ := List.cons.inj hr
      rw [hnil hl, hnil hr']
    · simp at hr

theorem SearchTree.descend_congr {d : α → Int} (a : α) (h : ∀ x ∈ t.toList, c x = d x) :
    t.find c = t.find d ∧ t.insert c a = t.insert d a := by
  induction t with
  | nil => exact ⟨rfl, rfl⟩
  | node l y r ihl ihr =>
    have hy : c y = d y := h y (by simp [toList])
    obtain ⟨hl, hl'⟩ := ihl fun x hx => h x (by simp [toList, hx])
    obtain ⟨hr, hr'⟩ := ihr fun x hx => h x (by simp [toList, hx])
    simp [find, insert, hy, hl, hl', hr, hr']

/-- **見つからなかった要素を置くと、木の要素は一つ増える。** -/
theorem SearchTree.perm_insert : ∀ {t : SearchTree α}, t.find c = none →
    (t.insert c a).toList.Perm (a :: t.toList)
  | nil, _ => List.Perm.refl _
  | node l y r, h => by
    simp only [find] at h
    simp only [insert]
    split at h
    · next hlt =>
      rw [if_pos hlt]
      exact (perm_insert h).append_right _
    · next hlt =>
      split at h
      · next hgt =>
        rw [if_neg hlt, if_pos hgt]
        have hr : (l.toList ++ y :: (r.insert c a).toList).Perm (l.toList ++ y :: a :: r.toList) :=
          ((perm_insert h).cons y).append_left _
        refine hr.trans ?_
        have hy : (l.toList ++ y :: a :: r.toList).Perm (l.toList ++ a :: y :: r.toList) :=
          (List.Perm.swap a y _).append_left _
        exact hy.trans List.perm_middle
      · cases h

structure OrderedOn (cmp : α → α → Int) (xs : List α) : Prop where
  irrefl : ∀ a ∈ xs, ¬ cmp a a < 0
  symm : ∀ a ∈ xs, ∀ b ∈ xs, 0 < cmp a b → cmp b a < 0
  trans : ∀ a ∈ xs, ∀ b ∈ xs, ∀ c ∈ xs, cmp a b < 0 → cmp b c < 0 → cmp a c < 0

theorem OrderedOn.mono {xs ys : List α} (h : OrderedOn cmp ys) (hsub : ∀ a ∈ xs, a ∈ ys) :
    OrderedOn cmp xs where
  irrefl a ha := h.irrefl a (hsub a ha)
  symm a ha b hb := h.symm a (hsub a ha) b (hsub b hb)
  trans a ha b hb c hc := h.trans a (hsub a ha) b (hsub b hb) c (hsub c hc)

theorem OrderedOn.congr {cmp' : α → α → Int} {xs : List α} (h : OrderedOn cmp xs)
    (hc : ∀ a ∈ xs, ∀ b ∈ xs, cmp' a b = cmp a b) : OrderedOn cmp' xs where
  irrefl a ha := by
    rw [hc a ha a ha]
    exact h.irrefl a ha
  symm a ha b hb := by
    rw [hc a ha b hb, hc b hb a ha]
    exact h.symm a ha b hb
  trans a ha b hb d hd := by
    rw [hc a ha b hb, hc b hb d hd, hc a ha d hd]
    exact h.trans a ha b hb d hd

instance (cmp : α → α → Int) (xs : List α) : Decidable (OrderedOn cmp xs) :=
  decidable_of_iff ((∀ a ∈ xs, ¬ cmp a a < 0) ∧ (∀ a ∈ xs, ∀ b ∈ xs, 0 < cmp a b → cmp b a < 0) ∧
      ∀ a ∈ xs, ∀ b ∈ xs, ∀ c ∈ xs, cmp a b < 0 → cmp b c < 0 → cmp a c < 0)
    ⟨fun h => ⟨h.1, h.2.1, h.2.2⟩, fun h => ⟨h.irrefl, h.symm, h.trans⟩⟩

def SearchTree.Sorted (cmp : α → α → Int) (t : SearchTree α) : Prop :=
  t.toList.Pairwise fun x y => cmp x y < 0

theorem SearchTree.sorted_node {l r : SearchTree α} : (node l x r).Sorted cmp ↔
    l.Sorted cmp ∧ r.Sorted cmp ∧ (∀ y ∈ l.toList, cmp y x < 0) ∧ (∀ y ∈ r.toList, cmp x y < 0) ∧
      ∀ y ∈ l.toList, ∀ z ∈ r.toList, cmp y z < 0 := by
  simp only [Sorted, toList, List.pairwise_append, List.pairwise_cons, List.mem_cons,
    forall_eq_or_imp]
  constructor
  · rintro ⟨hl, ⟨hxr, hr⟩, hlr⟩
    exact ⟨hl, hr, fun y hy => (hlr y hy).1, hxr, fun y hy => (hlr y hy).2⟩
  · rintro ⟨hl, hr, hlx, hxr, hlr⟩
    exact ⟨hl, ⟨hxr, hr⟩, fun y hy => ⟨hlx y hy, hlr y hy⟩⟩

/-- **比較が全順序なら、置いた後も並んでいる。** -/
theorem SearchTree.Sorted.insert : ∀ {t : SearchTree α}, t.Sorted cmp →
    OrderedOn cmp (a :: t.toList) → t.find (cmp a) = none → (t.insert (cmp a) a).Sorted cmp
  | nil, _, _, _ => List.pairwise_singleton _ _
  | node l x r, hs, ho, hf => by
    obtain ⟨hl, hr, hlx, hxr, hlr⟩ := sorted_node.mp hs
    have hxm : x ∈ a :: (node l x r).toList := by simp [toList]
    have ham : a ∈ a :: (node l x r).toList := List.mem_cons_self
    have hlm : ∀ y ∈ l.toList, y ∈ a :: (node l x r).toList := fun y hy => by simp [toList, hy]
    have hrm : ∀ y ∈ r.toList, y ∈ a :: (node l x r).toList := fun y hy => by simp [toList, hy]
    simp only [find] at hf
    simp only [SearchTree.insert]
    split at hf
    · next hlt =>
      -- `a < x` なので、`a` は右の要素のどれよりも前である
      rw [if_pos hlt]
      have hperm := perm_insert (a := a) hf
      have hol : OrderedOn cmp (a :: l.toList) := ho.mono fun y hy => by
        rcases List.mem_cons.mp hy with rfl | hy
        · exact ham
        · exact hlm y hy
      refine sorted_node.mpr ⟨hl.insert hol hf, hr, fun y hy => ?_, hxr, fun y hy z hz => ?_⟩
      · rcases List.mem_cons.mp (hperm.mem_iff.mp hy) with rfl | hy
        · exact hlt
        · exact hlx y hy
      · rcases List.mem_cons.mp (hperm.mem_iff.mp hy) with rfl | hy
        · exact ho.trans _ ham x hxm z (hrm z hz) hlt (hxr z hz)
        · exact hlr y hy z hz
    · next hlt =>
      split at hf
      · next hgt =>
        rw [if_neg hlt, if_pos hgt]
        have hxa : cmp x a < 0 := ho.symm a ham x hxm hgt
        have hperm := perm_insert (a := a) hf
        have hor : OrderedOn cmp (a :: r.toList) := ho.mono fun y hy => by
          rcases List.mem_cons.mp hy with rfl | hy
          · exact ham
          · exact hrm y hy
        refine sorted_node.mpr ⟨hl, hr.insert hor hf, hlx, fun y hy => ?_, fun y hy z hz => ?_⟩
        · rcases List.mem_cons.mp (hperm.mem_iff.mp hy) with rfl | hy
          · exact hxa
          · exact hxr y hy
        · rcases List.mem_cons.mp (hperm.mem_iff.mp hz) with rfl | hz
          · exact ho.trans y (hlm y hy) x hxm _ ham (hlx y hy) hxa
          · exact hlr y hy z hz
      · cases hf

/-- **並んでいれば、木にある要素は自分の key で見つかる。** -/
theorem SearchTree.Sorted.find_ne_none : ∀ {t : SearchTree α}, t.Sorted cmp →
    OrderedOn cmp t.toList → a ∈ t.toList → t.find (cmp a) ≠ none
  | nil, _, _, ha => by cases ha
  | node l x r, hs, ho, ha => by
    obtain ⟨hl, hr, hlx, hxr, -⟩ := sorted_node.mp hs
    have hxm : x ∈ (node l x r).toList := by simp [toList]
    have hol : OrderedOn cmp l.toList := ho.mono fun y hy => by simp [toList, hy]
    have hor : OrderedOn cmp r.toList := ho.mono fun y hy => by simp [toList, hy]
    have hmem : a ∈ l.toList ∨ a = x ∨ a ∈ r.toList := by
      simpa [toList] using ha
    simp only [find]
    split
    · next hlt =>
      rcases hmem with hm | rfl | hm
      · exact hl.find_ne_none hol hm
      · exact absurd hlt (ho.irrefl a ha)
      · exact absurd (ho.trans a ha x hxm a ha hlt (hxr a hm)) (ho.irrefl a ha)
    · next hlt =>
      split
      · next hgt =>
        rcases hmem with hm | rfl | hm
        · exact absurd (hlx a hm) hlt
        · exact absurd (ho.symm a ha a ha hgt) (ho.irrefl a ha)
        · exact hr.find_ne_none hor hm
      · simp

end

end Infra
