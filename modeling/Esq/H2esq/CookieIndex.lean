import Esq.H2esq.Cookie

/-!
# cookie の番号

`h2esq_save_cookie` は、次の番号を `RB_MAX(H2ESQ_COOKIE_BY_NAME, root_by_idx)` で求める。番号の木の根から始めて
名前の木の link を辿るので、着くのは番号の最も大きい cookie とは限らない。

番号が順につくのは、名前が二つまでのときと、三つ目の名前が一つ目より前、二つ目が後にあるときに限る
（`cookie_index_iff`）。
-/

namespace Esq

open Infra

/-! ## 保存の列 -/

structure CookieString where
  name : CStr
  value : CStr
  name_ne : name.bytes ≠ []
  noEqual : 61 ∉ name.bytes
  length_lt : (name.bytes ++ 61 :: value.bytes).length < cookieStrMax

namespace CookieString

def str (c : CookieString) : List UInt8 := c.name.bytes ++ 61 :: c.value.bytes

def cmp (a b : CookieString) : Int := cookieNameCmp a.name.bytes b.name.bytes

def block (c : CookieString) (idx : Int) : H2esqCookie := .of c.name.bytes c.value.bytes idx

theorem cmp_eq_zero {a b : CookieString} : a.cmp b = 0 ↔ a.name = b.name := by
  unfold cmp
  rw [cookieNameCmp_eq_zero, cookieKeyOf_inj]

end CookieString

structure CookieSave where
  mem : Bool
  cookie : CookieString

namespace CookieSave

def call (s : CookieSave) : CookieCall := ⟨s.mem, s.cookie.str⟩

def New (s : CookieSave) (cs : List CookieString) : Prop :=
  s.mem ∧ ∀ c ∈ cs, c.name ≠ s.cookie.name

instance (s : CookieSave) (cs : List CookieString) : Decidable (s.New cs) :=
  inferInstanceAs (Decidable (_ ∧ _))

theorem saved_call (s : CookieSave) : s.call.saved =
    if s.mem then some (s.cookie.name.bytes, s.cookie.value.bytes) else none := by
  split
  · next hm =>
    exact CookieCall.saved_eq_some.mpr
      ⟨hm, rfl, s.cookie.noEqual, s.cookie.name_ne, s.cookie.length_lt⟩
  · next hm =>
    cases h : s.call.saved with
    | none => rfl
    | some r => exact absurd (CookieCall.saved_eq_some.mp h).1 hm

end CookieSave

/-- 初めて保存した cookie を、名前ごとに一つ、保存した順に並べる。 -/
def firstCookies (saves : List CookieSave) : List CookieString :=
  saves.foldl (fun cs s => if s.New cs then cs ++ [s.cookie] else cs) []

def saveAll (saves : List CookieSave) : H2esqCookies := cookieRun (saves.map CookieSave.call)

/-! ## 木の形 -/

def cookieLeaf (color : RbColor) (p : Nat) : RbTree Nat := .node color .nil p .nil

def H2esqCookies.Holds (st : H2esqCookies) (p : Nat) (c : CookieString) (idx : Int) : Prop :=
  p < st.next ∧ st.cookie p = c.block idx

def IndexOrder : List CookieString → Prop
  | [] | [_] | [_, _] => True
  | [a, b, c] => 0 < b.cmp a ∧ c.cmp a < 0
  | _ :: _ :: _ :: _ :: _ => False

inductive CookieShape (st : H2esqCookies) : List CookieString → Prop
  | zero : st.rootByName = .nil → st.rootByIdx = .nil → CookieShape st []
  | one {p a} : st.Holds p a 0 → st.rootByName = cookieLeaf .black p →
      st.rootByIdx = cookieLeaf .black p → CookieShape st [a]
  | left {p q a b} : st.Holds p a 0 → st.Holds q b 1 → b.cmp a < 0 →
      st.rootByName = .node .black (cookieLeaf .red q) p .nil →
      st.rootByIdx = .node .black .nil p (cookieLeaf .red q) → CookieShape st [a, b]
  | right {p q a b} : st.Holds p a 0 → st.Holds q b 1 → 0 < b.cmp a →
      st.rootByName = .node .black .nil p (cookieLeaf .red q) →
      st.rootByIdx = .node .black .nil p (cookieLeaf .red q) → CookieShape st [a, b]
  | three {p q r a b c} : st.Holds p a 0 → st.Holds q b 1 → st.Holds r c 2 → 0 < b.cmp a →
      c.cmp a < 0 → st.rootByName = .node .black (cookieLeaf .red r) p (cookieLeaf .red q) →
      st.rootByIdx = .node .black (cookieLeaf .red p) q (cookieLeaf .red r) →
      CookieShape st [a, b, c]

section

variable {st : H2esqCookies} {cs : List CookieString} {s : CookieSave} {c : CookieString}
  {p q : Nat} {i j : Int}

theorem H2esqCookies.Holds.ne {d : CookieString} (h : st.Holds p c i) (h' : st.Holds q d j)
    (hij : i ≠ j) : p ≠ q := by
  rintro rfl
  have := h.2.symm.trans h'.2
  exact hij (congrArg H2esqCookie.idx this)

theorem CookieShape.indexOrder (h : CookieShape st cs) : IndexOrder cs := by
  cases h with
  | zero => trivial
  | one => trivial
  | left => trivial
  | right => trivial
  | three _ _ _ hb hc => exact ⟨hb, hc⟩

/-! ## 保存 -/

def H2esqCookies.cmpNew (st : H2esqCookies) (c : CookieString) : Nat → Int :=
  (st.alloc (c.block 0)).cmpName st.next

theorem H2esqCookies.Holds.cmpNew (h : st.Holds p c i) (d : CookieString) :
    st.cmpNew d p = d.cmp c := by
  refine (H2esqCookies.cmpName_alloc h.1).trans ?_
  rw [h.2, CookieString.block, H2esqCookie.key_of]
  rfl

/-- 名前の木が `t` になったときの、次の番号。 -/
def H2esqCookies.idxFrom (st : H2esqCookies) (c : CookieString) (t : RbTree Nat) : Int :=
  H2esqCookies.nextIdx { st.alloc (c.block 0) with rootByName := t }

theorem H2esqCookies.idxFrom_self {t l r : RbTree Nat} {e : Nat} {color : RbColor}
    (hroot : st.rootByIdx = .node color l e r) (hmax : (t.subtree e).rightmost = some st.next) :
    st.idxFrom c t = 1 := by
  have hmax : H2esqCookies.max { st.alloc (c.block 0) with rootByName := t } = some st.next := by
    unfold H2esqCookies.max H2esqCookies.alloc
    rw [hroot]
    exact hmax
  unfold H2esqCookies.idxFrom H2esqCookies.nextIdx
  rw [hmax]
  show toInt32 ((Function.update st.cookie st.next (c.block 0) st.next).idx + 1) = 1
  rw [Function.update_self]
  rfl

theorem H2esqCookies.Holds.idxFrom (h : st.Holds p c i) {d : CookieString} {t l r : RbTree Nat}
    {e : Nat} {color : RbColor} (hroot : st.rootByIdx = .node color l e r)
    (hmax : (t.subtree e).rightmost = some p) : st.idxFrom d t = toInt32 (i + 1) := by
  have hmax : H2esqCookies.max { st.alloc (d.block 0) with rootByName := t } = some p := by
    unfold H2esqCookies.max H2esqCookies.alloc
    rw [hroot]
    exact hmax
  unfold H2esqCookies.idxFrom H2esqCookies.nextIdx
  rw [hmax]
  show toInt32 ((Function.update st.cookie st.next (d.block 0) p).idx + 1) = _
  rw [Function.update_of_ne h.1.ne, h.2]
  rfl

theorem CookieSave.run_new {path : List (RbFrame Nat)} (hm : s.mem = true)
    (hd : st.rootByName.descend (st.cmpNew s.cookie) [] = .inr path)
    (hi : st.idxFrom s.cookie ((cookieLeaf .red st.next).insertColor path) = i) :
    s.call.run st =
      { cookie := Function.update st.cookie st.next (s.cookie.block i)
        next := st.next + 1
        rootByName := (cookieLeaf .red st.next).insertColor path
        rootByIdx := (st.rootByIdx.insert (fun q => h2esqRbtreeCmpIdx i
          (Function.update st.cookie st.next (s.cookie.block i) q).idx) st.next).2 } := by
  obtain ⟨hf, ht⟩ := RbTree.insert_of_descend hd st.next
  have hs := s.saved_call
  rw [if_pos hm] at hs
  have hf : (st.alloc (.of s.cookie.name.bytes s.cookie.value.bytes 0)).rootByName.find
    ((st.alloc (.of s.cookie.name.bytes s.cookie.value.bytes 0)).cmpName st.next) = none := hf
  have hins : st.inserted s.cookie.name.bytes s.cookie.value.bytes
      = { st.alloc (s.cookie.block 0) with
          rootByName := (cookieLeaf .red st.next).insertColor path } := by
    rw [show cookieLeaf .red st.next = .node .red .nil st.next .nil from rfl, ← ht]
    rfl
  have hi : (st.inserted s.cookie.name.bytes s.cookie.value.bytes).nextIdx = i := by
    rw [hins]
    exact hi
  rw [CookieCall.run_of_saved hs, hf]
  dsimp only
  rw [hi, H2esqCookies.insertIdx_inserted, hins]
  rfl

theorem H2esqCookies.Holds.save (h : st.Holds p c i) (d : CookieString) (j : Int)
    (byName byIdx : RbTree Nat) : H2esqCookies.Holds
      ⟨Function.update st.cookie st.next (d.block j), st.next + 1, byName, byIdx⟩ p c i := by
  refine ⟨Nat.lt_succ_of_lt h.1, ?_⟩
  show Function.update st.cookie st.next (d.block j) p = _
  rw [Function.update_of_ne h.1.ne, h.2]

theorem H2esqCookies.holds_next (st : H2esqCookies) (d : CookieString) (j : Int)
    (byName byIdx : RbTree Nat) : H2esqCookies.Holds
      ⟨Function.update st.cookie st.next (d.block j), st.next + 1, byName, byIdx⟩ st.next d j :=
  ⟨Nat.lt_succ_self _, Function.update_self ..⟩

/-- 新しい cookie を保存した結果。番号が順につくのは、名前の順が番号を乱さないときに限る。 -/
def SavedInOrder (st : H2esqCookies) (cs : List CookieString) (s : CookieSave) : Prop :=
  ∃ i, (s.call.run st).cookie st.next = s.cookie.block i ∧
    (i = cs.length ∧ CookieShape (s.call.run st) (cs ++ [s.cookie]) ∨
      i ≠ cs.length ∧ ¬ IndexOrder (cs ++ [s.cookie]))

theorem CookieSave.block_run {path : List (RbFrame Nat)} (hm : s.mem = true)
    (hd : st.rootByName.descend (st.cmpNew s.cookie) [] = .inr path)
    (hi : st.idxFrom s.cookie ((cookieLeaf .red st.next).insertColor path) = i) :
    (s.call.run st).cookie st.next = s.cookie.block i := by
  rw [CookieSave.run_new hm hd hi]
  exact Function.update_self ..

theorem CookieShape.save_zero (hm : s.mem = true) (hn : st.rootByName = .nil)
    (hi : st.rootByIdx = .nil) : SavedInOrder st [] s := by
  have hd : st.rootByName.descend (st.cmpNew s.cookie) [] = .inr [] := by
    rw [hn]
    rfl
  have hidx : st.idxFrom s.cookie ((cookieLeaf .red st.next).insertColor []) = 0 := by
    unfold H2esqCookies.idxFrom H2esqCookies.nextIdx H2esqCookies.max H2esqCookies.alloc
    rw [hi]
  refine ⟨0, CookieSave.block_run hm hd hidx, Or.inl ⟨rfl, ?_⟩⟩
  rw [CookieSave.run_new hm hd hidx, hi]
  exact .one (st.holds_next ..) rfl rfl

theorem SavedInOrder.broken {path : List (RbFrame Nat)} (hm : s.mem = true)
    (hd : st.rootByName.descend (st.cmpNew s.cookie) [] = .inr path)
    (hi : st.idxFrom s.cookie ((cookieLeaf .red st.next).insertColor path) = i)
    (hne : i ≠ cs.length) (ho : ¬ IndexOrder (cs ++ [s.cookie])) : SavedInOrder st cs s :=
  ⟨i, CookieSave.block_run hm hd hi, Or.inr ⟨hne, ho⟩⟩

theorem H2esqCookies.Holds.descend_left {d : CookieString} {col : RbColor} {l r : RbTree Nat}
    {path : List (RbFrame Nat)} (h : st.Holds p c i) (hlt : d.cmp c < 0) :
    (RbTree.node col l p r).descend (st.cmpNew d) path
      = l.descend (st.cmpNew d) (⟨true, col, p, r⟩ :: path) :=
  RbTree.descend_left ((h.cmpNew d).trans_lt hlt)

theorem H2esqCookies.Holds.descend_right {d : CookieString} {col : RbColor} {l r : RbTree Nat}
    {path : List (RbFrame Nat)} (h : st.Holds p c i) (hgt : 0 < d.cmp c) :
    (RbTree.node col l p r).descend (st.cmpNew d) path
      = r.descend (st.cmpNew d) (⟨false, col, p, l⟩ :: path) :=
  RbTree.descend_right (hgt.trans_eq (h.cmpNew d).symm)

theorem H2esqCookies.Holds.cmpIdx (h : st.Holds p c i) (d : CookieString) (j : Int) :
    h2esqRbtreeCmpIdx j (Function.update st.cookie st.next (d.block j) p).idx
      = toInt32 (j - i) := by
  rw [Function.update_of_ne h.1.ne, h.2]
  rfl

theorem CookieShape.save_one {a : CookieString} (hm : s.mem = true) (ha : st.Holds p a 0)
    (hn : st.rootByName = cookieLeaf .black p) (hi : st.rootByIdx = cookieLeaf .black p)
    (hne : s.cookie.cmp a ≠ 0) : SavedInOrder st [a] s := by
  have hbyIdx : (st.rootByIdx.insert (fun q => h2esqRbtreeCmpIdx 1
      (Function.update st.cookie st.next (s.cookie.block 1) q).idx) st.next).2
        = .node .black .nil p (cookieLeaf .red st.next) := by
    refine (RbTree.insert_of_descend (?_ : _ = Sum.inr [⟨false, .black, p, .nil⟩]) _).2
    rw [hi]
    exact RbTree.descend_right (by rw [ha.cmpIdx]; decide)
  rcases lt_or_gt_of_ne hne with hlt | hgt
  · have hd : st.rootByName.descend (st.cmpNew s.cookie) [] = .inr [⟨true, .black, p, .nil⟩] := by
      rw [hn]
      exact ha.descend_left hlt
    have hidx : st.idxFrom s.cookie
        ((cookieLeaf .red st.next).insertColor [⟨true, .black, p, .nil⟩]) = 1 :=
      ha.idxFrom hi (congrArg _ (RbTree.subtree_root ..))
    refine ⟨1, CookieSave.block_run hm hd hidx, Or.inl ⟨rfl, ?_⟩⟩
    rw [CookieSave.run_new hm hd hidx, hbyIdx]
    exact .left (ha.save ..) (st.holds_next ..) hlt rfl rfl
  · have hd : st.rootByName.descend (st.cmpNew s.cookie) [] = .inr [⟨false, .black, p, .nil⟩] := by
      rw [hn]
      exact ha.descend_right hgt
    have hidx : st.idxFrom s.cookie
        ((cookieLeaf .red st.next).insertColor [⟨false, .black, p, .nil⟩]) = 1 :=
      H2esqCookies.idxFrom_self hi (congrArg _ (RbTree.subtree_root ..))
    refine ⟨1, CookieSave.block_run hm hd hidx, Or.inl ⟨rfl, ?_⟩⟩
    rw [CookieSave.run_new hm hd hidx, hbyIdx]
    exact .right (ha.save ..) (st.holds_next ..) hgt rfl rfl

theorem CookieShape.save_left {a b : CookieString} (hm : s.mem = true) (ha : st.Holds p a 0)
    (hb : st.Holds q b 1) (hlt : b.cmp a < 0)
    (hn : st.rootByName = .node .black (cookieLeaf .red q) p .nil)
    (hi : st.rootByIdx = .node .black .nil p (cookieLeaf .red q))
    (hne : s.cookie.cmp a ≠ 0) (hne' : s.cookie.cmp b ≠ 0) : SavedInOrder st [a, b] s := by
  have hpn : st.next ≠ p := ha.1.ne'
  have hpq : q ≠ p := hb.ne ha one_ne_zero
  have ho : ¬ IndexOrder ([a, b] ++ [s.cookie]) := fun h => absurd h.1 hlt.not_gt
  rcases lt_or_gt_of_ne hne with hlta | hgta
  · rcases lt_or_gt_of_ne hne' with hltb | hgtb
    · have hd : st.rootByName.descend (st.cmpNew s.cookie) []
          = .inr [⟨true, .red, q, .nil⟩, ⟨true, .black, p, .nil⟩] := by
        rw [hn]
        exact (ha.descend_left hlta).trans (hb.descend_left hltb)
      refine .broken (i := 1) hm hd (ha.idxFrom hi ?_) (by simp) ho
      show RbTree.rightmost
        ((RbTree.node .black (cookieLeaf .red st.next) q (cookieLeaf .red p)).subtree p) = some p
      simp [RbTree.subtree, RbTree.rightmost, cookieLeaf, hpn, hpq]
    · have hd : st.rootByName.descend (st.cmpNew s.cookie) []
          = .inr [⟨false, .red, q, .nil⟩, ⟨true, .black, p, .nil⟩] := by
        rw [hn]
        exact (ha.descend_left hlta).trans (hb.descend_right hgtb)
      refine .broken (i := 1) hm hd (ha.idxFrom hi ?_) (by simp) ho
      show RbTree.rightmost
        ((RbTree.node .black (cookieLeaf .red q) st.next (cookieLeaf .red p)).subtree p) = some p
      simp [RbTree.subtree, RbTree.rightmost, cookieLeaf, hpn, hpq]
  · have hd : st.rootByName.descend (st.cmpNew s.cookie) []
        = .inr [⟨false, .black, p, cookieLeaf .red q⟩] := by
      rw [hn]
      exact ha.descend_right hgta
    exact .broken (i := 1) hm hd
      (H2esqCookies.idxFrom_self hi (congrArg _ (RbTree.subtree_root ..))) (by simp) ho

theorem CookieShape.save_right {a b : CookieString} (hm : s.mem = true) (ha : st.Holds p a 0)
    (hb : st.Holds q b 1) (hgt : 0 < b.cmp a)
    (hn : st.rootByName = .node .black .nil p (cookieLeaf .red q))
    (hi : st.rootByIdx = .node .black .nil p (cookieLeaf .red q))
    (hne : s.cookie.cmp a ≠ 0) (hne' : s.cookie.cmp b ≠ 0) : SavedInOrder st [a, b] s := by
  have hpn : st.next ≠ p := ha.1.ne'
  have hpq : q ≠ p := hb.ne ha one_ne_zero
  rcases lt_or_gt_of_ne hne with hlta | hgta
  · have hd : st.rootByName.descend (st.cmpNew s.cookie) []
        = .inr [⟨true, .black, p, cookieLeaf .red q⟩] := by
      rw [hn]
      exact ha.descend_left hlta
    have hidx : st.idxFrom s.cookie
        ((cookieLeaf .red st.next).insertColor [⟨true, .black, p, cookieLeaf .red q⟩]) = 2 :=
      hb.idxFrom hi (congrArg _ (RbTree.subtree_root ..))
    have hbyIdx : (st.rootByIdx.insert (fun q => h2esqRbtreeCmpIdx 2
        (Function.update st.cookie st.next (s.cookie.block 2) q).idx) st.next).2
          = .node .black (cookieLeaf .red p) q (cookieLeaf .red st.next) := by
      refine (RbTree.insert_of_descend
        (?_ : _ = Sum.inr [⟨false, .red, q, .nil⟩, ⟨false, .black, p, .nil⟩]) _).2
      rw [hi]
      exact (RbTree.descend_right (by rw [ha.cmpIdx]; decide)).trans
        (RbTree.descend_right (by rw [hb.cmpIdx]; decide))
    refine ⟨2, CookieSave.block_run hm hd hidx, Or.inl ⟨rfl, ?_⟩⟩
    rw [CookieSave.run_new hm hd hidx, hbyIdx]
    exact .three (ha.save ..) (hb.save ..) (st.holds_next ..) hgt hlta rfl rfl
  · have ho : ¬ IndexOrder ([a, b] ++ [s.cookie]) := fun h => absurd h.2 hgta.not_gt
    rcases lt_or_gt_of_ne hne' with hltb | hgtb
    · have hd : st.rootByName.descend (st.cmpNew s.cookie) []
          = .inr [⟨true, .red, q, .nil⟩, ⟨false, .black, p, .nil⟩] := by
        rw [hn]
        exact (ha.descend_right hgta).trans (hb.descend_left hltb)
      refine .broken (i := 1) hm hd (ha.idxFrom hi ?_) (by simp) ho
      show RbTree.rightmost
        ((RbTree.node .black (cookieLeaf .red p) st.next (cookieLeaf .red q)).subtree p) = some p
      simp [RbTree.subtree, RbTree.rightmost, cookieLeaf, hpn]
    · have hd : st.rootByName.descend (st.cmpNew s.cookie) []
          = .inr [⟨false, .red, q, .nil⟩, ⟨false, .black, p, .nil⟩] := by
        rw [hn]
        exact (ha.descend_right hgta).trans (hb.descend_right hgtb)
      refine .broken (i := 1) hm hd (ha.idxFrom hi ?_) (by simp) ho
      show RbTree.rightmost
        ((RbTree.node .black (cookieLeaf .red p) q (cookieLeaf .red st.next)).subtree p) = some p
      simp [RbTree.subtree, RbTree.rightmost, cookieLeaf, hpq]

theorem CookieShape.save_three {r : Nat} {a b c : CookieString} (hm : s.mem = true)
    (ha : st.Holds p a 0) (hb : st.Holds q b 1) (hc : st.Holds r c 2)
    (hn : st.rootByName = .node .black (cookieLeaf .red r) p (cookieLeaf .red q))
    (hi : st.rootByIdx = .node .black (cookieLeaf .red p) q (cookieLeaf .red r))
    (hnea : s.cookie.cmp a ≠ 0) (hneb : s.cookie.cmp b ≠ 0) (hnec : s.cookie.cmp c ≠ 0) :
    SavedInOrder st [a, b, c] s := by
  have hqn : st.next ≠ q := hb.1.ne'
  have hqp : p ≠ q := ha.ne hb zero_ne_one
  have hqr : r ≠ q := hc.ne hb (by simp)
  have ho : ¬ IndexOrder ([a, b, c] ++ [s.cookie]) := not_false
  rcases lt_or_gt_of_ne hnea with hlta | hgta
  · -- 三つ目の側に入るので、番号の木の根は右に子を持たない
    rcases lt_or_gt_of_ne hnec with hltc | hgtc
    · have hd : st.rootByName.descend (st.cmpNew s.cookie) []
          = .inr [⟨true, .red, r, .nil⟩, ⟨true, .black, p, cookieLeaf .red q⟩] := by
        rw [hn]
        exact (ha.descend_left hlta).trans (hc.descend_left hltc)
      refine .broken (i := 2) hm hd (hb.idxFrom hi ?_) (by simp) ho
      show ((RbTree.node .black (.node .black (cookieLeaf .red st.next) r .nil) p
        (cookieLeaf .black q)).subtree q).rightmost = some q
      simp [RbTree.subtree, RbTree.rightmost, cookieLeaf, hqn, hqp, hqr]
    · have hd : st.rootByName.descend (st.cmpNew s.cookie) []
          = .inr [⟨false, .red, r, .nil⟩, ⟨true, .black, p, cookieLeaf .red q⟩] := by
        rw [hn]
        exact (ha.descend_left hlta).trans (hc.descend_right hgtc)
      refine .broken (i := 2) hm hd (hb.idxFrom hi ?_) (by simp) ho
      show ((RbTree.node .black (.node .black .nil r (cookieLeaf .red st.next)) p
        (cookieLeaf .black q)).subtree q).rightmost = some q
      simp [RbTree.subtree, RbTree.rightmost, cookieLeaf, hqn, hqp, hqr]
  · rcases lt_or_gt_of_ne hneb with hltb | hgtb
    · have hd : st.rootByName.descend (st.cmpNew s.cookie) []
          = .inr [⟨true, .red, q, .nil⟩, ⟨false, .black, p, cookieLeaf .red r⟩] := by
        rw [hn]
        exact (ha.descend_right hgta).trans (hb.descend_left hltb)
      refine .broken (i := 2) hm hd (hb.idxFrom hi ?_) (by simp) ho
      show ((RbTree.node .black (cookieLeaf .black r) p
        (.node .black (cookieLeaf .red st.next) q .nil)).subtree q).rightmost = some q
      simp [RbTree.subtree, RbTree.rightmost, cookieLeaf, hqp, hqr]
    · have hd : st.rootByName.descend (st.cmpNew s.cookie) []
          = .inr [⟨false, .red, q, .nil⟩, ⟨false, .black, p, cookieLeaf .red r⟩] := by
        rw [hn]
        exact (ha.descend_right hgta).trans (hb.descend_right hgtb)
      refine .broken (i := 1) hm hd (H2esqCookies.idxFrom_self hi ?_) (by simp) ho
      show ((RbTree.node .black (cookieLeaf .black r) p
        (.node .black .nil q (cookieLeaf .red st.next))).subtree q).rightmost = some st.next
      simp [RbTree.subtree, RbTree.rightmost, cookieLeaf, hqp, hqr]

/-- **形が保たれている間、新しい名前の番号が順につくのは、名前の順が番号を乱さないときに限る。** -/
theorem CookieShape.save_new (h : CookieShape st cs) (hs : s.New cs) : SavedInOrder st cs s := by
  have hne : ∀ c ∈ cs, s.cookie.cmp c ≠ 0 := fun c hc he =>
    hs.2 c hc (CookieString.cmp_eq_zero.mp he).symm
  cases h with
  | zero hn hi => exact CookieShape.save_zero hs.1 hn hi
  | one ha hn hi => exact CookieShape.save_one hs.1 ha hn hi (hne _ (by simp))
  | left ha hb hlt hn hi =>
    exact CookieShape.save_left hs.1 ha hb hlt hn hi (hne _ (by simp)) (hne _ (by simp))
  | right ha hb hgt hn hi =>
    exact CookieShape.save_right hs.1 ha hb hgt hn hi (hne _ (by simp)) (hne _ (by simp))
  | three ha hb hc _ _ hn hi =>
    exact CookieShape.save_three hs.1 ha hb hc hn hi (hne _ (by simp)) (hne _ (by simp))
      (hne _ (by simp))

theorem CookieShape.find_ne_none (h : CookieShape st cs) (hc : c ∈ cs)
    (he : s.cookie.name = c.name) : st.rootByName.find (st.cmpNew s.cookie) ≠ none := by
  have hcmp : ∀ {p d i}, st.Holds p d i → st.cmpNew s.cookie p = c.cmp d := fun hd => by
    rw [hd.cmpNew]
    unfold CookieString.cmp
    rw [he]
  have hself : c.cmp c = 0 := CookieString.cmp_eq_zero.mpr rfl
  cases h with
  | zero => cases hc
  | one ha hn hi =>
    cases List.mem_singleton.mp hc
    simp [hn, RbTree.find, RbTree.forget, SearchTree.find, cookieLeaf, hcmp ha, hself]
  | left ha hb hlt hn hi =>
    simp only [List.mem_cons, List.not_mem_nil, or_false] at hc
    rcases hc with rfl | rfl
    · simp [hn, RbTree.find, RbTree.forget, SearchTree.find, hcmp ha, hself]
    · simp [hn, RbTree.find, RbTree.forget, SearchTree.find, cookieLeaf, hcmp ha, hcmp hb, hlt,
        hself]
  | right ha hb hgt hn hi =>
    simp only [List.mem_cons, List.not_mem_nil, or_false] at hc
    rcases hc with rfl | rfl
    · simp [hn, RbTree.find, RbTree.forget, SearchTree.find, hcmp ha, hself]
    · simp [hn, RbTree.find, RbTree.forget, SearchTree.find, cookieLeaf, hcmp ha, hcmp hb, hgt,
        hgt.not_gt, hself]
  | three ha hb hc' hgt hlt hn hi =>
    simp only [List.mem_cons, List.not_mem_nil, or_false] at hc
    rcases hc with rfl | rfl | rfl
    · simp [hn, RbTree.find, RbTree.forget, SearchTree.find, hcmp ha, hself]
    · simp [hn, RbTree.find, RbTree.forget, SearchTree.find, cookieLeaf, hcmp ha, hcmp hb, hgt,
        hgt.not_gt, hself]
    · simp [hn, RbTree.find, RbTree.forget, SearchTree.find, cookieLeaf, hcmp ha, hcmp hc', hlt,
        hself]

theorem CookieShape.save_old (h : CookieShape st cs) (hs : ¬ s.New cs) : s.call.run st = st := by
  by_cases hm : s.mem = true
  · obtain ⟨c, hc, hname⟩ : ∃ c ∈ cs, c.name = s.cookie.name := by
      by_contra hno
      exact hs ⟨hm, fun c hc he => hno ⟨c, hc, he⟩⟩
    have hsaved := s.saved_call
    rw [if_pos hm] at hsaved
    rw [CookieCall.run_of_saved hsaved]
    obtain ⟨q, hq⟩ := Option.ne_none_iff_exists'.mp (h.find_ne_none hc hname.symm)
    have hq : (st.alloc (.of s.cookie.name.bytes s.cookie.value.bytes 0)).rootByName.find
      ((st.alloc (.of s.cookie.name.bytes s.cookie.value.bytes 0)).cmpName st.next) = some q := hq
    rw [hq]
  · have hsaved := s.saved_call
    rw [if_neg hm] at hsaved
    exact CookieCall.run_of_saved_none hsaved

/-! ## 番号で引く -/

theorem H2esqCookies.Holds.idx (h : st.Holds p c j) (i : Int) :
    h2esqRbtreeCmpIdx i (st.cookie p).idx = toInt32 (i - j) := by
  rw [h.2]
  rfl

theorem H2esqCookies.Holds.byIdx (h : st.Holds p c i)
    (hf : st.rootByIdx.find (fun q => h2esqRbtreeCmpIdx j (st.cookie q).idx) = some p) :
    h2esqGetCookieValueByIdx st j = some (c.name, c.value) := by
  unfold h2esqGetCookieValueByIdx
  rw [hf, Option.map_some, h.2, CookieString.block, H2esqCookie.name_of, H2esqCookie.value_of,
    ofBytes_bytes, ofBytes_bytes]

theorem H2esqCookies.byIdx_none {n : Int} (hn : n ≤ 3) (hl : -2 ^ 31 ≤ i) (hu : i < 2 ^ 31)
    (hi : i < 0 ∨ n ≤ i)
    (hall : ∀ p ∈ st.rootByIdx.toList, ∃ c j, st.Holds p c j ∧ 0 ≤ j ∧ j < n) :
    h2esqGetCookieValueByIdx st i = none := by
  unfold h2esqGetCookieValueByIdx
  cases hf : st.rootByIdx.find (fun q => h2esqRbtreeCmpIdx i (st.cookie q).idx) with
  | none => rfl
  | some p =>
    obtain ⟨hp, hz⟩ := SearchTree.find_eq_some hf
    obtain ⟨c, j, hh, h0, hj⟩ := hall p hp
    rw [hh.idx, toInt32_eq] at hz
    omega

theorem CookieShape.byIdx (h : CookieShape st cs) {i : Int} (hl : -2 ^ 31 ≤ i) (hu : i < 2 ^ 31) :
    h2esqGetCookieValueByIdx st i =
      (if 0 ≤ i then cs[i.toNat]? else none).map fun c => (c.name, c.value) := by
  have hnone : i < 0 ∨ cs.length ≤ i → (if 0 ≤ i then cs[i.toNat]? else none) = none := fun hi => by
    split
    · exact List.getElem?_eq_none (by omega)
    · rfl
  have hneg : toInt32 (-1) = -1 := rfl
  have hzero : toInt32 0 = 0 := rfl
  have hpos : toInt32 1 = 1 := rfl
  cases h with
  | zero hn hi =>
    have hout : i < 0 ∨ (0 : Int) ≤ i := by omega
    rw [hnone hout]
    exact H2esqCookies.byIdx_none (n := 0) (by omega) hl hu hout (by simp [hi])
  | one ha hn hi =>
    obtain rfl | hout : i = 0 ∨ (i < 0 ∨ (1 : Int) ≤ i) := by omega
    · refine ha.byIdx ?_
      simp [hi, RbTree.find, RbTree.forget, SearchTree.find, cookieLeaf, ha.idx, hzero]
    · rw [hnone hout]
      refine H2esqCookies.byIdx_none (n := 1) (by omega) hl hu hout fun p hp => ?_
      obtain rfl : p = _ := by simpa [hi, cookieLeaf] using hp
      exact ⟨_, 0, ha, by omega, by omega⟩
  | left ha hb _ hn hi | right ha hb _ hn hi =>
    obtain rfl | rfl | hout : i = 0 ∨ i = 1 ∨ (i < 0 ∨ (2 : Int) ≤ i) := by omega
    · refine ha.byIdx ?_
      simp [hi, RbTree.find, RbTree.forget, SearchTree.find, ha.idx, hzero]
    · refine hb.byIdx ?_
      simp [hi, RbTree.find, RbTree.forget, SearchTree.find, cookieLeaf, ha.idx, hb.idx, hzero,
        hpos]
    · rw [hnone hout]
      refine H2esqCookies.byIdx_none (n := 2) (by omega) hl hu hout fun p hp => ?_
      obtain rfl | rfl : p = _ ∨ p = _ := by simpa [hi, cookieLeaf] using hp
      · exact ⟨_, 0, ha, by omega, by omega⟩
      · exact ⟨_, 1, hb, by omega, by omega⟩
  | three ha hb hc _ _ hn hi =>
    obtain rfl | rfl | rfl | hout : i = 0 ∨ i = 1 ∨ i = 2 ∨ (i < 0 ∨ (3 : Int) ≤ i) := by omega
    · refine ha.byIdx ?_
      simp [hi, RbTree.find, RbTree.forget, SearchTree.find, cookieLeaf, ha.idx, hb.idx, hzero,
        hneg]
    · refine hb.byIdx ?_
      simp [hi, RbTree.find, RbTree.forget, SearchTree.find, hb.idx, hzero]
    · refine hc.byIdx ?_
      simp [hi, RbTree.find, RbTree.forget, SearchTree.find, cookieLeaf, hb.idx, hc.idx, hzero,
        hpos]
    · rw [hnone hout]
      refine H2esqCookies.byIdx_none (n := 3) (by omega) hl hu hout fun p hp => ?_
      obtain rfl | rfl | rfl : p = _ ∨ p = _ ∨ p = _ := by simpa [hi, cookieLeaf] using hp
      · exact ⟨_, 0, ha, by omega, by omega⟩
      · exact ⟨_, 1, hb, by omega, by omega⟩
      · exact ⟨_, 2, hc, by omega, by omega⟩

end

/-! ## 番号の順 -/

/-- 名前は、初めて保存した順に 0 から番号を受け、番号で引くとその cookie が返る。 -/
structure CookieIndexed (saves : List CookieSave) : Prop where
  received : ∀ pre s post, saves = pre ++ s :: post → s.New (firstCookies pre) →
    ((saveAll (pre ++ [s])).cookie (saveAll pre).next).idx = (firstCookies pre).length
  byIdx : ∀ i : Int, -2 ^ 31 ≤ i → i < 2 ^ 31 → h2esqGetCookieValueByIdx (saveAll saves) i =
    (if 0 ≤ i then (firstCookies saves)[i.toNat]? else none).map fun c => (c.name, c.value)

section

variable {saves pre post : List CookieSave} {s : CookieSave}

theorem firstCookies_concat (pre : List CookieSave) (s : CookieSave) : firstCookies (pre ++ [s]) =
    if s.New (firstCookies pre) then firstCookies pre ++ [s.cookie] else firstCookies pre := by
  unfold firstCookies
  rw [List.foldl_append]
  rfl

theorem saveAll_concat (pre : List CookieSave) (s : CookieSave) :
    saveAll (pre ++ [s]) = s.call.run (saveAll pre) := by
  unfold saveAll
  rw [List.map_append]
  exact cookieRun_concat _ _

theorem IndexOrder.of_concat {cs : List CookieString} {c : CookieString}
    (h : IndexOrder (cs ++ [c])) : IndexOrder cs := by
  match cs, h with
  | [], _ => trivial
  | [_], _ => trivial
  | [_, _], _ => trivial
  | [_, _, _], h => exact h.elim
  | _ :: _ :: _ :: _ :: _, h => exact h

theorem IndexOrder.of_append (h : IndexOrder (firstCookies (pre ++ post))) :
    IndexOrder (firstCookies pre) := by
  induction post using List.reverseRecOn with
  | nil =>
    rw [List.append_nil] at h
    exact h
  | append_singleton post s ih =>
    rw [← List.append_assoc, firstCookies_concat] at h
    split at h
    · exact ih h.of_concat
    · exact ih h

/-- **名前の順が番号を乱さない間、木の形は保たれる。** -/
theorem cookieShape_of_indexOrder : ∀ (saves : List CookieSave), IndexOrder (firstCookies saves) →
    CookieShape (saveAll saves) (firstCookies saves) := by
  intro saves
  induction saves using List.reverseRecOn with
  | nil => exact fun _ => .zero rfl rfl
  | append_singleton pre s ih =>
    rw [firstCookies_concat, saveAll_concat]
    split
    · next hs =>
      intro h
      obtain ⟨i, -, ⟨-, hshape⟩ | ⟨-, hno⟩⟩ := (ih h.of_concat).save_new hs
      · exact hshape
      · exact absurd h hno
    · next hs =>
      intro h
      rw [(ih h).save_old hs]
      exact ih h

/-- **番号が順についていれば、名前の順は番号を乱さない。** -/
theorem indexOrder_of_received (h : ∀ pre s post, saves = pre ++ s :: post →
    s.New (firstCookies pre) →
      ((saveAll (pre ++ [s])).cookie (saveAll pre).next).idx = (firstCookies pre).length) :
    IndexOrder (firstCookies saves) := by
  induction saves using List.reverseRecOn with
  | nil => trivial
  | append_singleton pre s ih =>
    have hpre := ih fun pre' s' post' he hs' => h pre' s' (post' ++ [s]) (by simp [he]) hs'
    rw [firstCookies_concat]
    split
    · next hs =>
      have hidx := h pre s [] rfl hs
      rw [saveAll_concat] at hidx
      obtain ⟨i, hblock, ⟨-, hshape⟩ | ⟨hne, -⟩⟩ := (cookieShape_of_indexOrder pre hpre).save_new hs
      · exact hshape.indexOrder
      · rw [hblock] at hidx
        exact absurd hidx hne
    · exact hpre

/--
**番号が順につくのは、名前が二つまでのときと、三つで、三つ目が一つ目より前、二つ目が後にあるときに限る。**
-/
theorem cookie_index_iff (saves : List CookieSave) :
    CookieIndexed saves ↔ IndexOrder (firstCookies saves) := by
  constructor
  · exact fun h => indexOrder_of_received h.received
  · intro h
    refine ⟨fun pre s post he hs => ?_, fun i hl hu => ?_⟩
    · have hpre : IndexOrder (firstCookies (pre ++ [s])) := by
        rw [he, List.append_cons] at h
        exact h.of_append
      rw [firstCookies_concat, if_pos hs] at hpre
      rw [saveAll_concat]
      obtain ⟨i, hblock, ⟨hi, -⟩ | ⟨-, hno⟩⟩ :=
        (cookieShape_of_indexOrder pre hpre.of_concat).save_new hs
      · rw [hblock]
        exact hi
      · exact absurd hpre hno
    · exact (cookieShape_of_indexOrder saves h).byIdx hl hu

theorem CookieString.char_ne_nil (name : UInt8) : [name] ≠ [] := List.cons_ne_nil name []

def CookieString.ofChars (name value : UInt8) (hn : (0 : UInt8) ∉ [name] ∧ (61 : UInt8) ∉ [name])
    (hv : (0 : UInt8) ∉ [value]) : CookieString where
  name := ⟨[name], hn.1⟩
  value := ⟨[value], hv⟩
  name_ne := char_ne_nil name
  noEqual := hn.2
  length_lt := by
    show 3 < 4095
    omega

def risingNames : List CookieSave :=
  [⟨true, .ofChars 97 49 (by decide) (by decide)⟩, ⟨true, .ofChars 98 50 (by decide) (by decide)⟩,
    ⟨true, .ofChars 99 51 (by decide) (by decide)⟩]

/-- **名前の順に三つ保存すると、三つ目の番号はまた 1 になり、番号では引けない。** -/
theorem rising_names_lost : ¬ CookieIndexed risingNames := by
  intro h
  have hbyIdx := h.byIdx 2 (by omega) (by omega)
  exact absurd hbyIdx (by decide +kernel)

end

end Esq
