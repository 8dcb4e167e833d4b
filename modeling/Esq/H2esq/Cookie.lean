import Esq.Infra.LittleEndian
import Esq.Infra.RedBlack
import Esq.Libs.Memcmp
import Esq.Libs.Memory

/-!
# cookie

`nghttp2_wrapper/cookie.c`。保存した cookie は、名前で引く木と番号で引く木の二つに入る。

`malloc` した `h2esq_cookie_t` には通し番号をつけて区別し、二つの木の `RB_ENTRY` の繋がりは `RbTree` が持つ。
`internal/tree.h` の `RB_INSERT`、`RB_INSERT_COLOR`、`RB_ROTATE_*`、`RB_FIND`、`RB_MAX` は、`RbTree` の `insert`、
`insertColor`、`rotate`、`find`、`rightmost` である。
-/

namespace Esq

open Infra

def cookieStrMax : Nat := 4095

def cookieNameMax : Nat := 1024

/-! ## hash -/

structure CookieHash where
  h0 : UInt8 := 0
  h1 : UInt8 := 0
  h2 : UInt8 := 0
  h3 : UInt8 := 0
deriving DecidableEq, Repr

def CookieHash.add (h : CookieHash) (i : Nat) (c : UInt8) : CookieHash where
  h0 := if i &&& 1 ≠ 0 then h.h0 + c else h.h0
  h1 := if i &&& 3 ≠ 0 then h.h1 + c else h.h1
  h2 := if i &&& 2 ≠ 0 then h.h2 + c else h.h2
  h3 := if i &&& 6 ≠ 0 then h.h3 + c else h.h3

/-- `*hash`。`int` の和を `unsigned long` にする。 -/
def CookieHash.value (h : CookieHash) : Int :=
  toInt32 (h.h0.toNat + h.h1.toNat * 2 ^ 8 + h.h2.toNat * 2 ^ 16 + h.h3.toNat * 2 ^ 23) % 2 ^ 64

/-- `h2esq_get_cookie_string_features` の loop。`=` に着くと hash と名前の長さを返す。 -/
def cookieFeaturesLoop : List UInt8 → Nat → CookieHash → Option (Int × Nat)
  | [], _, _ => none
  | c :: cs, i, h =>
    if c = 61 then if i ≠ 0 then some (h.value, i) else none
    else cookieFeaturesLoop cs (i + 1) (h.add i c)

/-- `h2esq_get_cookie_string_features`。失敗したときの出力は読まれない。 -/
def h2esqGetCookieStringFeatures (str : List UInt8) (len : Int) : Option (Int × Nat) :=
  if len ≤ 0 ∨ cookieStrMax ≤ len then none
  else cookieFeaturesLoop (str.take len.toNat) 0 {}

def cookieHashLoop : List UInt8 → Nat → CookieHash → CookieHash
  | [], _, h => h
  | c :: cs, i, h => cookieHashLoop cs (i + 1) (h.add i c)

def h2esqGetCookieStringHash (str : List UInt8) (len : Int) : Int :=
  (cookieHashLoop (str.take len.toNat) 0 {}).value

/-! ## 比較 -/

structure CookieKey where
  nameHash : Int
  nameLen : Nat
  name : CStr
deriving DecidableEq

/-- `h2esq_rbtree_cmp_name`。hash の差は `int` に切り詰めて返す。 -/
def h2esqRbtreeCmpName (a b : CookieKey) : Int :=
  if a.nameHash ≠ b.nameHash then toInt32 (a.nameHash - b.nameHash)
  else if a.nameLen ≠ b.nameLen then (a.nameLen : Int) - b.nameLen
  else strcmp a.name b.name

def h2esqRbtreeCmpIdx (a b : Int) : Int := toInt32 (a - b)

/-! ## cookie -/

/-- `h2esq_cookie_t`。`buf` には名前と値が、それぞれ NUL をつけて並ぶ。 -/
structure H2esqCookie where
  idx : Int
  nameLen : Nat
  nameHash : Int
  buf : List UInt8

namespace H2esqCookie

def name (p : H2esqCookie) : CStr := .ofBytes p.buf

def value (p : H2esqCookie) : CStr := .ofBytes (p.buf.drop (p.nameLen + 1))

def key (p : H2esqCookie) : CookieKey := ⟨p.nameHash, p.nameLen, p.name⟩

end H2esqCookie

/-- `h2esq_cookies_rb_roots` と、割り当てた cookie。 -/
structure H2esqCookies where
  cookie : Nat → H2esqCookie
  /-- 次に `malloc` する番号 -/
  next : Nat
  rootByName : RbTree Nat
  rootByIdx : RbTree Nat

namespace H2esqCookies

def init : H2esqCookies where
  cookie _ := ⟨0, 0, 0, []⟩
  next := 0
  rootByName := .nil
  rootByIdx := .nil

def alloc (st : H2esqCookies) (p : H2esqCookie) : H2esqCookies :=
  { st with cookie := Function.update st.cookie st.next p, next := st.next + 1 }

def cmpName (st : H2esqCookies) (p q : Nat) : Int :=
  h2esqRbtreeCmpName (st.cookie p).key (st.cookie q).key

def cmpIdx (st : H2esqCookies) (p q : Nat) : Int :=
  h2esqRbtreeCmpIdx (st.cookie p).idx (st.cookie q).idx

/-- `RB_MAX(H2ESQ_COOKIE_BY_NAME, root_by_idx)`。番号の木の根から、名前の木の右の link を辿る。 -/
def max (st : H2esqCookies) : Option Nat :=
  match st.rootByIdx with
  | .nil => none
  | .node _ _ e _ => (st.rootByName.subtree e).rightmost

/-- `p->idx` を決めて、番号の木に入れる。木に同じ番号があっても気にしない。 -/
def insertIdx (st : H2esqCookies) (p : Nat) (idx : Int) : H2esqCookies :=
  let st := { st with cookie := Function.update st.cookie p { st.cookie p with idx := idx } }
  { st with rootByIdx := (st.rootByIdx.insert (st.cmpIdx p) p).2 }

end H2esqCookies

/-- `h2esq_save_cookie`。`mem` は `malloc` の成否である。 -/
def h2esqSaveCookie (mem : Bool) (st : H2esqCookies) (str : List UInt8) (len : Int) :
    Int × H2esqCookies :=
  match h2esqGetCookieStringFeatures str len with
  | none => (-1, st)
  | some (hash, nameLen) =>
    if !mem then (-1, st)
    else
      let valueLen := (len - nameLen - 1).toNat
      let p := st.next
      let alloced := st.alloc
        { idx := 0
          nameLen := nameLen
          nameHash := hash
          buf := str.take nameLen ++ 0 :: ((str.drop (nameLen + 1)).take valueLen ++ [0]) }
      match alloced.rootByName.insert (alloced.cmpName p) p with
      -- 同じ名前がある。`p` は `free` する
      | (some _, _) => (0, st)
      | (none, rootByName) =>
        let inserted := { alloced with rootByName := rootByName }
        match inserted.max with
        | some max => (0, inserted.insertIdx p (toInt32 ((inserted.cookie max).idx + 1)))
        | none => (0, inserted.insertIdx p 0)

def h2esqGetCookieValueByName (st : H2esqCookies) (name : CStr) : Option CStr :=
  let nameLen := name.strnlen cookieNameMax
  if nameLen ≤ 0 ∨ cookieNameMax ≤ nameLen then none
  else
    let f : CookieKey := ⟨h2esqGetCookieStringHash name.bytes nameLen, nameLen, name⟩
    (st.rootByName.find fun q => h2esqRbtreeCmpName f (st.cookie q).key).map fun p =>
      (st.cookie p).value

/-- `h2esq_get_cookie_value_by_idx`。NULL でない `name` と `value` に書くものである。 -/
def h2esqGetCookieValueByIdx (st : H2esqCookies) (idx : Int) : Option (CStr × CStr) :=
  (st.rootByIdx.find fun q => h2esqRbtreeCmpIdx idx (st.cookie q).idx).map fun p =>
    ((st.cookie p).name, (st.cookie p).value)

/-! ## 実行 -/

structure CookieCall where
  mem : Bool
  str : List UInt8

def CookieCall.run (st : H2esqCookies) (call : CookieCall) : H2esqCookies :=
  (h2esqSaveCookie call.mem st call.str call.str.length).2

def cookieRun (calls : List CookieCall) : H2esqCookies := calls.foldl CookieCall.run .init

def CookieCall.saved (call : CookieCall) : Option (List UInt8 × List UInt8) :=
  let name := call.str.takeWhile (· ≠ 61)
  if call.mem ∧ call.str.length < cookieStrMax ∧ name ≠ [] ∧ 61 ∈ call.str then
    some (name, call.str.drop (name.length + 1))
  else none

def cookieNameHash (name : List UInt8) : Int := (cookieHashLoop name 0 {}).value

def cookieKeyOf (name : List UInt8) : CookieKey := ⟨cookieNameHash name, name.length, .ofBytes name⟩

def H2esqCookie.of (name value : List UInt8) (idx : Int) : H2esqCookie where
  idx := idx
  nameLen := name.length
  nameHash := cookieNameHash name
  buf := name ++ 0 :: (value ++ [0])

def H2esqCookies.nextIdx (st : H2esqCookies) : Int :=
  match st.max with
  | some max => toInt32 ((st.cookie max).idx + 1)
  | none => 0

section

variable {name value : List UInt8} {idx : Int} {st : H2esqCookies} {call : CookieCall}

@[simp] theorem H2esqCookie.name_of (name value : List UInt8) (idx : Int) :
    (H2esqCookie.of name value idx).name = .ofBytes name :=
  Subtype.ext (cstring_append_zero' name _)

@[simp] theorem H2esqCookie.value_of (name value : List UInt8) (idx : Int) :
    (H2esqCookie.of name value idx).value = .ofBytes value := by
  refine Subtype.ext ?_
  show cstring ((name ++ 0 :: (value ++ [0])).drop (name.length + 1)) = cstring value
  rw [List.append_cons, List.drop_left' (by simp)]
  exact cstring_append_zero' value []

@[simp] theorem H2esqCookie.key_of (name value : List UInt8) (idx : Int) :
    (H2esqCookie.of name value idx).key = cookieKeyOf name := by
  unfold H2esqCookie.key cookieKeyOf
  rw [H2esqCookie.name_of]
  rfl

theorem takeWhile_name (hn : 61 ∉ name) (value : List UInt8) :
    (name ++ 61 :: value).takeWhile (· ≠ 61) = name := by
  have hname : ∀ c ∈ name, decide (c ≠ 61) = true := fun c hc =>
    decide_eq_true fun he => hn (he ▸ hc)
  rw [List.takeWhile_append_of_pos hname, List.takeWhile_cons_of_neg (by simp), List.append_nil]

theorem drop_name (name value : List UInt8) :
    (name ++ 61 :: value).drop (name.length + 1) = value := by
  rw [List.append_cons name 61 value, List.drop_left' (by simp)]

theorem CookieCall.saved_eq_some : call.saved = some (name, value) ↔
    call.mem ∧ call.str = name ++ 61 :: value ∧ 61 ∉ name ∧ name ≠ [] ∧
      call.str.length < cookieStrMax := by
  unfold CookieCall.saved
  constructor
  · intro h
    dsimp only at h
    split at h
    · next hs =>
      obtain ⟨hm, hl, hne, heq⟩ := hs
      obtain ⟨u, v, hstr, hu⟩ := List.eq_append_cons_of_mem heq
      rw [hstr, takeWhile_name hu, drop_name] at h
      rw [hstr, takeWhile_name hu] at hne
      cases h
      exact ⟨hm, hstr, hu, hne, hl⟩
    · cases h
  · rintro ⟨hm, hs, hn, hne, hl⟩
    dsimp only
    rw [if_pos ⟨hm, hl, by rw [hs, takeWhile_name hn]; exact hne, by rw [hs]; simp⟩, hs,
      takeWhile_name hn, drop_name]

theorem cookieFeaturesLoop_append : ∀ (name : List UInt8) (rest : List UInt8) (i : Nat)
    (h : CookieHash), 61 ∉ name → cookieFeaturesLoop (name ++ rest) i h
      = cookieFeaturesLoop rest (i + name.length) (cookieHashLoop name i h)
  | [], _, _, _, _ => rfl
  | c :: name, rest, i, h, hn => by
    have hc : c ≠ 61 := fun he => hn (he ▸ List.mem_cons_self)
    rw [List.cons_append, cookieFeaturesLoop, if_neg hc,
      cookieFeaturesLoop_append name rest _ _ fun hm => hn (List.mem_cons_of_mem c hm),
      cookieHashLoop, List.length_cons]
    congr 1
    omega

theorem h2esqGetCookieStringHash_eq (name : List UInt8) :
    h2esqGetCookieStringHash name name.length = cookieNameHash name := by
  unfold h2esqGetCookieStringHash
  rw [Int.toNat_natCast, List.take_length]
  rfl

/-- **名前が空でなければ、二つの hash の計算は一致する。** -/
theorem h2esqGetCookieStringFeatures_eq (hn : 61 ∉ name) (hne : name ≠ [])
    (hl : (name ++ 61 :: value).length < cookieStrMax) :
    h2esqGetCookieStringFeatures (name ++ 61 :: value) (name ++ 61 :: value).length
      = some (h2esqGetCookieStringHash name name.length, name.length) := by
  have hpos : name.length ≠ 0 := fun h => hne (List.eq_nil_of_length_eq_zero h)
  unfold h2esqGetCookieStringFeatures h2esqGetCookieStringHash
  rw [if_neg (by rw [List.length_append, List.length_cons] at *; omega), Int.toNat_natCast,
    Int.toNat_natCast, List.take_length, List.take_length, cookieFeaturesLoop_append _ _ _ _ hn,
    cookieFeaturesLoop, if_pos rfl, Nat.zero_add, if_pos hpos]

theorem h2esqGetCookieStringFeatures_eq_some {str : List UInt8} {r : Int × Nat}
    (h : h2esqGetCookieStringFeatures str str.length = some r) :
    ∃ name value, str = name ++ 61 :: value ∧ 61 ∉ name ∧ name ≠ [] ∧
      str.length < cookieStrMax := by
  unfold h2esqGetCookieStringFeatures at h
  split at h
  · cases h
  · next hlen =>
    rw [Int.toNat_natCast, List.take_length] at h
    by_cases heq : 61 ∈ str
    · obtain ⟨name, value, hstr, hn⟩ := List.eq_append_cons_of_mem heq
      refine ⟨name, value, hstr, hn, fun hnil => ?_, by omega⟩
      subst hnil
      rw [hstr, cookieFeaturesLoop_append _ _ _ _ hn] at h
      cases h
    · rw [← List.append_nil str, cookieFeaturesLoop_append _ _ _ _ heq] at h
      cases h

theorem CookieCall.run_of_saved_none (h : call.saved = none) : call.run st = st := by
  unfold CookieCall.run h2esqSaveCookie
  cases hf : h2esqGetCookieStringFeatures call.str call.str.length with
  | none => rfl
  | some r =>
    cases hm : call.mem with
    | false => rfl
    | true =>
      obtain ⟨name, value, hstr, hn, hne, hl⟩ := h2esqGetCookieStringFeatures_eq_some hf
      rw [CookieCall.saved_eq_some.mpr ⟨hm, hstr, hn, hne, hl⟩] at h
      cases h

def H2esqCookies.inserted (st : H2esqCookies) (name value : List UInt8) : H2esqCookies :=
  let alloced := st.alloc (.of name value 0)
  { alloced with rootByName := (alloced.rootByName.insert (alloced.cmpName st.next) st.next).2 }

theorem CookieCall.run_of_saved (h : call.saved = some (name, value)) :
    call.run st = match (st.alloc (.of name value 0)).rootByName.find
        ((st.alloc (.of name value 0)).cmpName st.next) with
      | some _ => st
      | none =>
        (st.inserted name value).insertIdx st.next (st.inserted name value).nextIdx := by
  obtain ⟨hm, hstr, hn, hne, hl⟩ := CookieCall.saved_eq_some.mp h
  have hbuf : call.str.take name.length ++ 0 :: ((call.str.drop (name.length + 1)).take
      ((call.str.length : Int) - name.length - 1).toNat ++ [0]) = name ++ 0 :: (value ++ [0]) := by
    rw [hstr, List.take_left' rfl, drop_name, List.take_of_length_le]
    rw [List.length_append, List.length_cons]
    omega
  have hf := h2esqGetCookieStringFeatures_eq hn hne (hstr ▸ hl)
  rw [← hstr, h2esqGetCookieStringHash_eq] at hf
  unfold CookieCall.run h2esqSaveCookie
  rw [hf, hm]
  simp only [Bool.not_true, Bool.false_eq_true, if_false, hbuf]
  rw [show (⟨0, name.length, cookieNameHash name, name ++ 0 :: (value ++ [0])⟩ : H2esqCookie)
    = .of name value 0 from rfl]
  unfold H2esqCookies.inserted H2esqCookies.nextIdx
  generalize st.alloc (.of name value 0) = alloced
  cases hfind : alloced.rootByName.find (alloced.cmpName st.next) with
  | some q => rw [RbTree.insert_of_find_some hfind]
  | none =>
    rcases hins : alloced.rootByName.insert (alloced.cmpName st.next) st.next with ⟨r, rootByName⟩
    have hr := (RbTree.insert_of_find_none hfind st.next).1
    rw [hins] at hr
    subst hr
    cases hmax : ({ alloced with rootByName := rootByName } : H2esqCookies).max <;>
      simp only [hins, hmax]

/-! ## 保存した後 -/

theorem H2esqCookies.insertIdx_inserted (st : H2esqCookies) (name value : List UInt8) (idx : Int) :
    (st.inserted name value).insertIdx st.next idx =
      { cookie := Function.update st.cookie st.next (.of name value idx)
        next := st.next + 1
        rootByName := (st.inserted name value).rootByName
        rootByIdx := (st.rootByIdx.insert (fun q => h2esqRbtreeCmpIdx idx
          (Function.update st.cookie st.next (.of name value idx) q).idx) st.next).2 } := by
  have hof : ({ H2esqCookie.of name value 0 with idx := idx } : H2esqCookie)
    = .of name value idx := rfl
  simp only [H2esqCookies.insertIdx, H2esqCookies.inserted, H2esqCookies.alloc,
    Function.update_idem, Function.update_self, hof]
  congr 3
  funext q
  simp only [H2esqCookies.cmpIdx, Function.update_self]
  rfl

theorem H2esqCookies.cmpName_alloc {p : Nat} (hp : p < st.next) :
    (st.alloc (.of name value 0)).cmpName st.next p
      = h2esqRbtreeCmpName (cookieKeyOf name) (st.cookie p).key := by
  show h2esqRbtreeCmpName (Function.update st.cookie st.next (.of name value 0) st.next).key
    (Function.update st.cookie st.next (.of name value 0) p).key = _
  rw [Function.update_self, Function.update_of_ne hp.ne, H2esqCookie.key_of]

theorem cookieRun_concat (pre : List CookieCall) (call : CookieCall) :
    cookieRun (pre ++ [call]) = call.run (cookieRun pre) := by
  unfold cookieRun
  rw [List.foldl_append]
  rfl

/-- **番号の木の cookie は、どれも名前の木にある。** `max` が辿るのは、名前の木の link である。 -/
theorem cookieRun_idx_subset_name (calls : List CookieCall) :
    (cookieRun calls).rootByIdx.toList ⊆ (cookieRun calls).rootByName.toList := by
  induction calls using List.reverseRecOn with
  | nil => exact fun p hp => hp
  | append_singleton pre call ih =>
    rw [cookieRun_concat]
    cases hs : call.saved with
    | none =>
      rw [CookieCall.run_of_saved_none hs]
      exact ih
    | some c =>
      rw [CookieCall.run_of_saved hs]
      split
      · exact ih
      · next hf =>
        intro p hp
        rw [H2esqCookies.insertIdx_inserted] at hp ⊢
        refine (RbTree.perm_insert hf _).mem_iff.mpr ?_
        rcases RbTree.mem_insert hp with rfl | hp
        · exact List.mem_cons_self
        · exact List.mem_cons_of_mem _ (ih hp)

end

/-! ## 名前の比較 -/

theorem cookieNameHash_range (name : List UInt8) :
    ∃ x, cookieNameHash name = toInt32 x % 2 ^ 64 :=
  ⟨_, rfl⟩

theorem cookieNameHash_diff_eq_zero {a b : List UInt8} :
    toInt32 (cookieNameHash a - cookieNameHash b) = 0 ↔ cookieNameHash a = cookieNameHash b := by
  obtain ⟨x, hx⟩ := cookieNameHash_range a
  obtain ⟨y, hy⟩ := cookieNameHash_range b
  have hxb := toInt32_bounds x
  have hyb := toInt32_bounds y
  constructor
  · intro h
    have hd := dvd_of_toInt32_sub h
    omega
  · intro h
    rw [h, Int.sub_self]
    rfl

def cookieNameCmp (a b : List UInt8) : Int := h2esqRbtreeCmpName (cookieKeyOf a) (cookieKeyOf b)

theorem cookieNameCmp_eq_zero {a b : List UInt8} :
    cookieNameCmp a b = 0 ↔ cookieKeyOf a = cookieKeyOf b := by
  unfold cookieNameCmp h2esqRbtreeCmpName
  constructor
  · intro h
    split at h
    · next hne => exact absurd (cookieNameHash_diff_eq_zero.mp h) hne
    · next hhash =>
      split at h
      · next hne =>
        have hne : a.length ≠ b.length := hne
        have h : (a.length : Int) - b.length = 0 := h
        omega
      · next hlen =>
        have hhash : cookieNameHash a = cookieNameHash b := not_not.mp hhash
        have hlen : a.length = b.length := not_not.mp hlen
        have hname : CStr.ofBytes a = CStr.ofBytes b := strcmp_eq_zero.mp h
        unfold cookieKeyOf
        rw [hhash, hlen, hname]
  · intro h
    rw [h, if_neg (fun h => h rfl), if_neg (fun h => h rfl)]
    exact strcmp_self _

theorem ofBytes_bytes (a : CStr) : CStr.ofBytes a.bytes = a :=
  Subtype.ext (List.takeWhile_eq_self_iff.mpr fun _ hc =>
    decide_eq_true fun he => a.property (he ▸ hc))

theorem cookieKeyOf_inj {a b : CStr} : cookieKeyOf a.bytes = cookieKeyOf b.bytes ↔ a = b := by
  constructor
  · intro h
    have hname : CStr.ofBytes a.bytes = CStr.ofBytes b.bytes := congrArg CookieKey.name h
    rwa [ofBytes_bytes, ofBytes_bytes] at hname
  · rintro rfl
    rfl

end Esq
