import Esq.Infra.SearchTree

/-!
# 赤黒木

親への link を持つ赤黒木。挿入は、葉に赤い節を置いてから、親を辿って色を直す。

辿った道は frame の列で持つ。列の頭が、いまの節の親である。色を直しても通りがけ順の列は変わらないので、
挿入が列に及ぼすことは、色の無い木の `SearchTree.insert` と同じである（`RbTree.toList_insert`）。
-/

namespace Infra

inductive RbColor where
  | black
  | red
deriving DecidableEq, Repr

inductive RbTree (α : Type*) where
  | nil
  | node (color : RbColor) (left : RbTree α) (elem : α) (right : RbTree α)
deriving DecidableEq, Repr

/-- 降りた節。`left` なら左に降りたので、降りなかった `sibling` は右にある。 -/
structure RbFrame (α : Type*) where
  left : Bool
  color : RbColor
  elem : α
  sibling : RbTree α

namespace RbTree

variable {α : Type*}

def forget : RbTree α → SearchTree α
  | nil => .nil
  | node _ l x r => .node l.forget x r.forget

def toList (t : RbTree α) : List α := t.forget.toList

def find (c : α → Int) (t : RbTree α) : Option α := t.forget.find c

def rightmost : RbTree α → Option α
  | nil => none
  | node _ _ x nil => some x
  | node _ _ _ r => r.rightmost

def subtree [DecidableEq α] (x : α) : RbTree α → RbTree α
  | nil => nil
  | node c l y r =>
    if y = x then node c l y r
    else match l.subtree x with
      | nil => r.subtree x
      | t => t

/-! ## 色と回転 -/

def isRed : RbTree α → Bool
  | node .red _ _ _ => true
  | _ => false

def blacken : RbTree α → RbTree α
  | nil => nil
  | node _ l x r => node .black l x r

/-- 子を一つ上げる。`left` なら左の子を上げる右回転、そうでなければ左回転である。 -/
def rotate (left : Bool) : RbTree α → RbTree α
  | nil => nil
  | node c l x r =>
    match left, l, r with
    | true, node c' l' y m, r => node c' l' y (node c m x r)
    | false, l, node c' m y r' => node c' (node c l x m) y r'
    | _, l, r => node c l x r

end RbTree

namespace RbFrame

variable {α : Type*}

def fill (f : RbFrame α) (t : RbTree α) : RbTree α :=
  if f.left then .node f.color t f.elem f.sibling else .node f.color f.sibling f.elem t

def wrap (f : RbFrame α) (xs : List α) : List α :=
  if f.left then xs ++ f.elem :: f.sibling.toList else f.sibling.toList ++ f.elem :: xs

end RbFrame

namespace RbTree

variable {α : Type*}

def rebuild (t : RbTree α) : List (RbFrame α) → RbTree α
  | [] => t
  | f :: path => (f.fill t).rebuild path

/--
色を直す。`t` の根が赤い `elm` で、`path` の頭が `parent`、次が `gparent` である。

根は黒いので、赤い `parent` には必ず `gparent` がある。
-/
def insertColor (t : RbTree α) : List (RbFrame α) → RbTree α
  | p :: g :: path =>
    if p.color = .red then
      if g.sibling.isRed then
        -- `elm = gparent` として続ける
        insertColor ({ g with color := .red, sibling := g.sibling.blacken }.fill
          ({ p with color := .black }.fill t)) path
      else
        -- 内側の孫であれば、先に `parent` で回す
        let parent := if p.left = g.left then p.fill t else (p.fill t).rotate p.left
        ((({ g with color := .red }.fill parent.blacken).rotate g.left).rebuild path).blacken
    else (t.rebuild (p :: g :: path)).blacken
  | path => (t.rebuild path).blacken

/-- 探して降りる。等しい節に着けばそれを、葉に着けばそこまでの道を返す。 -/
def descend (c : α → Int) : RbTree α → List (RbFrame α) → α ⊕ List (RbFrame α)
  | nil, path => .inr path
  | node color l x r, path =>
    if c x < 0 then l.descend c (⟨true, color, x, r⟩ :: path)
    else if 0 < c x then r.descend c (⟨false, color, x, l⟩ :: path)
    else .inl x

/-- 挿入。等しい節があれば、それを返して何もしない。 -/
def insert (c : α → Int) (a : α) (t : RbTree α) : Option α × RbTree α :=
  match t.descend c [] with
  | .inl x => (some x, t)
  | .inr path => (none, insertColor (node .red nil a nil) path)

end RbTree

section

variable {α : Type*} {c : α → Int} {cmp : α → α → Int} {a x : α} {t : RbTree α}
  {path : List (RbFrame α)}

namespace RbTree

@[simp] theorem toList_nil : (nil : RbTree α).toList = [] := rfl

@[simp] theorem toList_node (color : RbColor) (l : RbTree α) (x : α) (r : RbTree α) :
    (node color l x r).toList = l.toList ++ x :: r.toList := rfl

@[simp] theorem toList_blacken (t : RbTree α) : t.blacken.toList = t.toList := by
  cases t <;> rfl

@[simp] theorem toList_rotate (left : Bool) (t : RbTree α) : (t.rotate left).toList = t.toList := by
  cases t with
  | nil => rfl
  | node color l x r =>
    cases left with
    | true =>
      cases l with
      | nil => rfl
      | node c' l' y m => simp [rotate]
    | false =>
      cases r with
      | nil => cases l <;> rfl
      | node c' m y r' => simp [rotate]

theorem subtree_root [DecidableEq α] (color : RbColor) (l : RbTree α) (x : α) (r : RbTree α) :
    (node color l x r).subtree x = node color l x r := if_pos rfl

theorem toList_fill (f : RbFrame α) (t : RbTree α) : (f.fill t).toList = f.wrap t.toList := by
  unfold RbFrame.fill RbFrame.wrap
  split <;> rfl

theorem toList_rebuild : ∀ (path : List (RbFrame α)) (t : RbTree α),
    (t.rebuild path).toList = path.foldl (fun xs f => f.wrap xs) t.toList
  | [], _ => rfl
  | f :: path, t => by
    rw [rebuild, toList_rebuild path, toList_fill]
    rfl

theorem wrap_recolor (f : RbFrame α) (color : RbColor) (s : RbTree α) (xs : List α)
    (hs : s.toList = f.sibling.toList) :
    RbFrame.wrap { f with color := color, sibling := s } xs = f.wrap xs := by
  unfold RbFrame.wrap
  simp only [hs]

theorem toList_insertColor (t : RbTree α) (path : List (RbFrame α)) :
    (t.insertColor path).toList = path.foldl (fun xs f => f.wrap xs) t.toList := by
  fun_induction insertColor t path with
  | case1 t p g path hp hu ih =>
    rw [ih, toList_fill, toList_fill, wrap_recolor _ _ _ _ (toList_blacken _),
      wrap_recolor p _ _ _ rfl]
    rfl
  | case2 t p g path hp hu parent =>
    have hparent : parent.toList = p.wrap t.toList := by
      unfold parent
      split
      · exact toList_fill p t
      · rw [toList_rotate, toList_fill]
    rw [toList_blacken, toList_rebuild, toList_rotate, toList_fill, toList_blacken, hparent,
      wrap_recolor g _ _ _ rfl]
    rfl
  | case3 t p g path hp => rw [toList_blacken, toList_rebuild]
  | case4 t path hpath => rw [toList_blacken, toList_rebuild]

theorem descend_cases (a : α) : ∀ (t : RbTree α) (path : List (RbFrame α)),
    (∃ x, t.descend c path = .inl x ∧ t.find c = some x) ∨
      ∃ path', t.descend c path = .inr path' ∧ t.find c = none ∧
        path'.foldl (fun xs f => f.wrap xs) [a]
          = path.foldl (fun xs f => f.wrap xs) (t.forget.insert c a).toList
  | nil, path => Or.inr ⟨path, rfl, rfl, rfl⟩
  | node color l x r, path => by
    unfold descend find forget SearchTree.find SearchTree.insert
    split
    · exact descend_cases a l _
    · split
      · exact descend_cases a r _
      · exact Or.inl ⟨x, rfl, rfl⟩

theorem descend_left {color : RbColor} {l r : RbTree α} (h : c x < 0) :
    (node color l x r).descend c path = l.descend c (⟨true, color, x, r⟩ :: path) := by
  rw [descend, if_pos h]

theorem descend_right {color : RbColor} {l r : RbTree α} (h : 0 < c x) :
    (node color l x r).descend c path = r.descend c (⟨false, color, x, l⟩ :: path) := by
  rw [descend, if_neg (by omega), if_pos h]

theorem insert_of_find_some (h : t.find c = some x) : t.insert c a = (some x, t) := by
  unfold insert
  rcases descend_cases (c := c) a t [] with ⟨y, hd, hf⟩ | ⟨path, -, hf, -⟩
  · rw [h] at hf
    cases hf
    rw [hd]
  · rw [h] at hf
    cases hf

/-- **等しい節が無ければ、色の無い木に置いたのと同じ列になる。** -/
theorem insert_of_find_none (h : t.find c = none) (a : α) :
    (t.insert c a).1 = none ∧ (t.insert c a).2.toList = (t.forget.insert c a).toList := by
  unfold insert
  rcases descend_cases (c := c) a t [] with ⟨y, -, hf⟩ | ⟨path, hd, -, hl⟩
  · rw [h] at hf
    cases hf
  · rw [hd]
    refine ⟨rfl, ?_⟩
    show (insertColor _ path).toList = _
    rw [toList_insertColor]
    exact hl

theorem perm_insert (h : t.find c = none) (a : α) :
    (t.insert c a).2.toList.Perm (a :: t.toList) := by
  rw [(insert_of_find_none h a).2]
  exact SearchTree.perm_insert h

theorem mem_insert (h : x ∈ (t.insert c a).2.toList) : x = a ∨ x ∈ t.toList := by
  cases hf : t.find c with
  | none => exact List.mem_cons.mp ((perm_insert hf a).mem_iff.mp h)
  | some y =>
    rw [insert_of_find_some hf] at h
    exact Or.inr h

theorem insert_of_descend (h : t.descend c [] = .inr path) (a : α) :
    t.find c = none ∧ (t.insert c a).2 = insertColor (node .red nil a nil) path := by
  rcases descend_cases (c := c) a t [] with ⟨y, hd, -⟩ | ⟨-, -, hf, -⟩
  · rw [h] at hd
    cases hd
  · refine ⟨hf, ?_⟩
    unfold insert
    rw [h]

/-! ## 並んだ木 -/

def Sorted (cmp : α → α → Int) (t : RbTree α) : Prop := t.forget.Sorted cmp

/-- **比較が全順序なら、挿入は要素を一つ増やし、並びを保つ。** -/
theorem Sorted.insert (h : t.Sorted cmp) (ho : OrderedOn cmp (a :: t.toList))
    (hf : t.find (cmp a) = none) :
    (t.insert (cmp a) a).2.Sorted cmp ∧ (t.insert (cmp a) a).2.toList.Perm (a :: t.toList) := by
  refine ⟨?_, perm_insert hf a⟩
  show List.Pairwise _ (t.insert (cmp a) a).2.toList
  rw [(insert_of_find_none hf a).2]
  exact SearchTree.Sorted.insert h ho hf

end RbTree

end

end Infra
