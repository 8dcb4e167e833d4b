import Esq.Infra.HeadOrder
import Esq.Libs.HeadMatchTree
import Mathlib.Data.List.Perm.Basic

/-!
# head match tree の表

`hmt_add` は pattern を `Above` の順に並べ、`hmt_compile` の作る表はその並びの上の探索木になる。

`HmtEnter` は、表のどの項がどの範囲の入口になるかを述べる。範囲は、先頭 `depth` 文字が同じ pattern
の並びで、入口の group より上は `depth` 文字目が大きく、下は小さい。
-/

namespace Esq

open Infra

/-! ## pattern の並び -/

section Order

variable {a b : List UInt8} {n : Nat}

theorem toNat_getD (p : List UInt8) (d : Nat) :
    (p.getD d 0).toNat = rankAt UInt8.toNat p d := by
  unfold rankAt
  rw [List.getD_eq_getElem?_getD]
  cases p[d]? with
  | none => rfl
  | some c => rfl

theorem strncmp_above (n : Nat) (a b : List UInt8) :
    (0 < strncmp a b n → Above UInt8.toNat a b)
      ∧ (strncmp a b n < 0 → Above UInt8.toNat b a) := by
  induction n generalizing a b with
  | zero => simp [strncmp]
  | succ n ih =>
    have hhead (p : List UInt8) : (p.headD 0).toNat = rankAt UInt8.toNat p 0 := by
      cases p with
      | nil => rfl
      | cons c p => rfl
    rw [strncmp]
    split
    · constructor
      · intro h
        exact ⟨0, rfl, by rw [← hhead, ← hhead]; omega⟩
      · intro h
        exact ⟨0, rfl, by rw [← hhead, ← hhead]; omega⟩
    · next heq =>
      split
      · simp
      · next hzero =>
        -- 先頭の文字は同じで、NUL ではない
        cases a with
        | nil => exact absurd rfl hzero
        | cons x a =>
          cases b with
          | nil => exact absurd (not_not.mp heq) hzero
          | cons y b =>
            obtain rfl : x = y := not_not.mp heq
            exact ⟨fun h => .cons x ((ih a b).1 h), fun h => .cons x ((ih a b).2 h)⟩

end Order

def HmtSorted (items : List HmtItem) : Prop :=
  items.Pairwise fun x y => Above UInt8.toNat x.pattern.bytes y.pattern.bytes

theorem hmtInsert_some {k : HmtItem} {lenMax : Nat} {items items' : List HmtItem}
    (h : hmtInsert k lenMax items = some items') (hs : HmtSorted items) :
    HmtSorted items' ∧ items'.Perm (k :: items) := by
  induction items generalizing items' with
  | nil =>
    cases h
    exact ⟨List.pairwise_singleton _ _, .refl _⟩
  | cons item items ih =>
    have hcmp := strncmp_above lenMax k.pattern.bytes item.pattern.bytes
    obtain ⟨hall, htail⟩ := List.pairwise_cons.mp hs
    rw [hmtInsert] at h
    split at h
    · next hr =>
      cases h
      refine ⟨List.pairwise_cons.mpr ⟨?_, hs⟩, .refl _⟩
      intro x hx
      rcases List.mem_cons.mp hx with rfl | hx
      · exact hcmp.1 hr
      · exact (hcmp.1 hr).trans (hall x hx)
    · split at h
      · next hr =>
        obtain ⟨rest, hrest, rfl⟩ := Option.map_eq_some_iff.mp h
        obtain ⟨hsorted, hperm⟩ := ih hrest htail
        refine ⟨List.pairwise_cons.mpr ⟨?_, hsorted⟩, ?_⟩
        · intro x hx
          rcases List.mem_cons.mp (hperm.subset hx) with rfl | hx
          · exact hcmp.2 hr
          · exact hall x hx
        · exact (hperm.cons item).trans (.swap k item items)
      · cases h

/-- `hmt_add` と `hmt_add2` の呼び出し。どちらを使うかは `mallocItem` による。 -/
def HmtItem.add (pt : Hmt) (item : HmtItem) : Int × Hmt :=
  if item.mallocItem then hmtAdd2 pt item.pattern item.userdata
  else hmtAdd pt item.pattern item.userdata

/-- 順に加える。どれかが 0 を返さなければ `none`。 -/
def hmtAddAll : Hmt → List HmtItem → Option Hmt
  | pt, [] => some pt
  | pt, item :: items => if (item.add pt).1 = 0 then hmtAddAll (item.add pt).2 items else none

structure Hmt.Ready (pt : Hmt) : Prop where
  sorted : HmtSorted pt.items
  short : ∀ item ∈ pt.items, item.pattern.bytes.length < pt.patternLenMax
  lenMax : pt.patternLenMax = 2 ^ pt.patternLenMaxShift
  max_lt : pt.max < hmtItemMax
  /-- 番号は `char` に収まる -/
  few : (pt.cnt : Int) < hmtItemMax

theorem hmtNew2_ready {max scale : Int} {pt : Hmt} (h : hmtNew2 max scale = some pt) :
    pt.Ready ∧ pt.items = [] := by
  unfold hmtNew2 at h
  split at h
  · cases h
  · next hmax =>
    cases h
    refine ⟨⟨.nil, by simp, ?_, not_le.mp hmax, (by decide : (0 : Int) < hmtItemMax)⟩, rfl⟩
    show (hmtPathLenMax scale).1 = 2 ^ (hmtPathLenMax scale).2
    unfold hmtPathLenMax
    split_ifs <;> rfl

theorem HmtItem.add_eq (pt : Hmt) (item : HmtItem) :
    item.add pt = hmtAddWith pt item.pattern item.userdata item.mallocItem := by
  unfold HmtItem.add hmtAdd hmtAdd2
  cases item.mallocItem with
  | true => exact if_pos rfl
  | false => exact if_neg Bool.false_ne_true

theorem hmtAddItem_zero {pt : Hmt} {k : HmtItem} (h : (hmtAddItem pt k).1 = 0) :
    ∃ items, hmtInsert k pt.patternLenMax pt.items = some items
      ∧ (hmtAddItem pt k).2 = { pt with items } ∧ (pt.cnt : Int) < pt.max := by
  unfold hmtAddItem at h ⊢
  by_cases hcnt : pt.max ≤ pt.cnt
  · rw [if_pos hcnt] at h
    exact absurd h (show (-1 : Int) ≠ 0 by decide)
  · rw [if_neg hcnt] at h ⊢
    cases hins : hmtInsert k pt.patternLenMax pt.items with
    | none =>
      rw [hins] at h
      exact absurd h (show (-3 : Int) ≠ 0 by decide)
    | some items => exact ⟨items, rfl, rfl, not_le.mp hcnt⟩

theorem hmtAddWith_zero {pt : Hmt} {pattern : CStr} {userdata : Nat} {mallocItem : Bool}
    (h : (hmtAddWith pt pattern userdata mallocItem).1 = 0) :
    pattern.bytes.length < pt.patternLenMax
      ∧ hmtAddWith pt pattern userdata mallocItem
        = hmtAddItem pt { pattern, userdata, mallocItem } := by
  unfold hmtAddWith at h ⊢
  by_cases hlen : pt.patternLenMax ≤ pattern.strnlen pt.patternLenMax
      ∨ pattern.strnlen pt.patternLenMax = 0
  · rw [if_pos hlen] at h
    exact absurd h (show (-2 : Int) ≠ 0 by decide)
  · refine ⟨?_, if_neg hlen⟩
    unfold CStr.strnlen at hlen
    omega

theorem HmtItem.add_zero {pt : Hmt} {item : HmtItem} (hr : pt.Ready) (h : (item.add pt).1 = 0) :
    (item.add pt).2.Ready ∧ (item.add pt).2.items.Perm (item :: pt.items) := by
  rw [HmtItem.add_eq] at h ⊢
  obtain ⟨hlen, hadd⟩ := hmtAddWith_zero h
  rw [hadd] at h ⊢
  obtain ⟨items, hins, hpt, hcnt⟩ := hmtAddItem_zero h
  rw [hpt]
  obtain ⟨hsorted, hperm⟩ := hmtInsert_some hins hr.sorted
  refine ⟨⟨hsorted, ?_, hr.lenMax, hr.max_lt, ?_⟩, hperm⟩
  · intro x hx
    rcases List.mem_cons.mp (hperm.subset hx) with rfl | hx
    · exact hlen
    · exact hr.short x hx
  · have hcount : items.length = pt.cnt + 1 := hperm.length_eq
    have hmax := hr.max_lt
    show (items.length : Int) < hmtItemMax
    omega

theorem hmtAddAll_some {pt pt' : Hmt} {items : List HmtItem} (hr : pt.Ready)
    (h : hmtAddAll pt items = some pt') :
    pt'.Ready ∧ pt'.items.Perm (pt.items ++ items) := by
  induction items generalizing pt with
  | nil =>
    cases h
    exact ⟨hr, by rw [List.append_nil]⟩
  | cons item items ih =>
    rw [hmtAddAll] at h
    split at h
    · next hadd =>
      obtain ⟨hr1, hperm1⟩ := HmtItem.add_zero hr hadd
      obtain ⟨hr2, hperm2⟩ := ih hr1 h
      refine ⟨hr2, hperm2.trans ?_⟩
      exact (hperm1.append_right items).trans List.perm_middle.symm
    · cases h

/-! ## 並びの上の位置 -/

namespace Hmt.Ready

variable {pt : Hmt} {i j d : Nat}

theorem ranked (pt : Hmt) (i : Nat) : Ranked UInt8.toNat (pt.pattern i) := by
  intro c hc
  have hne : c ≠ 0 := by
    rintro rfl
    exact (pt.items.getD i default).pattern.property hc
  exact Nat.pos_of_ne_zero fun h0 => hne (UInt8.toNat_inj.mp h0)

theorem toNat_char (pt : Hmt) (i d : Nat) :
    (pt.char i d).toNat = rankAt UInt8.toNat (pt.pattern i) d := toNat_getD _ _

theorem pattern_eq (h : i < pt.cnt) : pt.pattern i = (pt.items.get ⟨i, h⟩).pattern.bytes := by
  unfold Hmt.pattern
  rw [List.getD_eq_getElem?_getD, List.getElem?_eq_getElem h]
  rfl

theorem above (hr : pt.Ready) (hij : i < j) (hj : j < pt.cnt) :
    Above UInt8.toNat (pt.pattern i) (pt.pattern j) := by
  rw [pattern_eq (Nat.lt_trans hij hj), pattern_eq hj]
  exact List.pairwise_iff_get.mp hr.sorted ⟨i, _⟩ ⟨j, hj⟩ hij

theorem length_lt (hr : pt.Ready) (h : i < pt.cnt) :
    (pt.pattern i).length < pt.patternLenMax := by
  rw [pattern_eq h]
  exact hr.short _ (List.get_mem _ _)

theorem char_ne_zero : pt.char i d ≠ 0 ↔ d < (pt.pattern i).length := by
  have hzero : pt.char i d = 0 ↔ rankAt UInt8.toNat (pt.pattern i) d = 0 := by
    rw [← toNat_char, ← UInt8.toNat_inj]
    rfl
  rw [Ne, hzero]
  constructor
  · intro h
    exact lt_length_of_rankAt_pos (Nat.pos_of_ne_zero h)
  · intro h
    exact Nat.ne_of_gt (rankAt_pos_of_lt (ranked pt i) h)

theorem index_inj (hr : pt.Ready) {e : Nat} (hd : d < pt.patternLenMax)
    (he : e < pt.patternLenMax) (h : pt.index i d = pt.index j e) : i = j ∧ d = e := by
  unfold Hmt.index at h
  rw [hr.lenMax] at hd he
  rw [Nat.shiftLeft_eq, Nat.shiftLeft_eq] at h
  have hpos : 0 < 2 ^ pt.patternLenMaxShift := Nat.two_pow_pos _
  have hmod : (i * 2 ^ pt.patternLenMaxShift + d) % 2 ^ pt.patternLenMaxShift
      = (j * 2 ^ pt.patternLenMaxShift + e) % 2 ^ pt.patternLenMaxShift := by rw [h]
  rw [Nat.mul_add_mod_of_lt hd, Nat.mul_add_mod_of_lt he] at hmod
  subst hmod
  exact ⟨Nat.eq_of_mul_eq_mul_right hpos (Nat.add_right_cancel h), rfl⟩

end Hmt.Ready

/-! ## 先頭の等しい範囲 -/

/-- `start` から `stop` までの pattern は、先頭 `depth` 文字が等しい。 -/
structure HmtCommon (pt : Hmt) (depth start stop : Nat) : Prop where
  le : start ≤ stop
  lt : stop < pt.cnt
  same : ∀ i, start ≤ i → i ≤ stop → (pt.pattern i).take depth = (pt.pattern start).take depth
  long : ∀ i, start ≤ i → i ≤ stop → depth ≤ (pt.pattern i).length

namespace HmtCommon

variable {pt : Hmt} {depth start stop i j : Nat}

theorem sub (h : HmtCommon pt depth start stop) {start' stop' : Nat} (h1 : start ≤ start')
    (h2 : start' ≤ stop') (h3 : stop' ≤ stop) : HmtCommon pt depth start' stop' where
  le := h2
  lt := Nat.lt_of_le_of_lt h3 h.lt
  same i hi hi' := by
    rw [h.same i (Nat.le_trans h1 hi) (Nat.le_trans hi' h3),
      h.same start' h1 (Nat.le_trans h2 h3)]
  long i hi hi' := h.long i (Nat.le_trans h1 hi) (Nat.le_trans hi' h3)

theorem char_le (h : HmtCommon pt depth start stop) (hr : pt.Ready) (hi : start ≤ i)
    (hij : i ≤ j) (hj : j ≤ stop) : (pt.char j depth).toNat ≤ (pt.char i depth).toNat := by
  rcases Nat.eq_or_lt_of_le hij with rfl | hlt
  · exact Nat.le_refl _
  · rw [Hmt.Ready.toNat_char, Hmt.Ready.toNat_char]
    refine (hr.above hlt (Nat.lt_of_le_of_lt hj h.lt)).rankAt_le ?_
    rw [h.same i hi (Nat.le_trans hij hj), h.same j (Nat.le_trans hi hij) hj]

theorem char_ne_zero (h : HmtCommon pt depth start stop) (hr : pt.Ready) (hi : start ≤ i)
    (hij : i < j) (hj : j ≤ stop) : pt.char i depth ≠ 0 := by
  intro h0
  have hend {k : Nat} (hk : start ≤ k) (hk' : k ≤ stop) (hz : pt.char k depth = 0) :
      pt.pattern k = (pt.pattern start).take depth := by
    have hlen : (pt.pattern k).length ≤ depth := by
      by_contra hlong
      exact Hmt.Ready.char_ne_zero.mpr (Nat.lt_of_not_le hlong) hz
    rw [← h.same k hk hk', List.take_of_length_le hlen]
  have hj0 : pt.char j depth = 0 := by
    have hle := h.char_le hr hi (Nat.le_of_lt hij) hj
    rw [h0] at hle
    exact UInt8.toNat_inj.mp (Nat.le_zero.mp hle)
  refine (hr.above hij (Nat.lt_of_le_of_lt hj h.lt)).not_head ?_
  rw [hend hi (by omega) h0, hend (by omega) hj hj0]

theorem succ (h : HmtCommon pt depth start stop) (hc : pt.char start depth ≠ 0)
    (hall : ∀ i, start ≤ i → i ≤ stop → pt.char i depth = pt.char start depth) :
    HmtCommon pt (depth + 1) start stop where
  le := h.le
  lt := h.lt
  same i hi hi' := by
    have hchar : rankAt UInt8.toNat (pt.pattern i) depth
        = rankAt UInt8.toNat (pt.pattern start) depth := by
      rw [← Hmt.Ready.toNat_char, ← Hmt.Ready.toNat_char, hall i hi hi']
    have hpos : 0 < rankAt UInt8.toNat (pt.pattern i) depth := by
      rw [hchar]
      exact rankAt_pos_of_lt (Hmt.Ready.ranked pt start) (Hmt.Ready.char_ne_zero.mp hc)
    exact take_succ_congr (fun _ _ h => UInt8.toNat_inj.mp h) (h.same i hi hi') hchar hpos
  long i hi hi' := by
    have hne : pt.char i depth ≠ 0 := by rw [hall i hi hi']; exact hc
    exact Hmt.Ready.char_ne_zero.mp hne

end HmtCommon

/-! ## 中央の group -/

section Border

variable {pt : Hmt} {depth start stop m : Nat} {c : UInt8}

theorem hmtGroupStart_same (hc : pt.char m depth = c) (h : start ≤ m) :
    (∀ i, hmtGroupStart pt depth start c m ≤ i → i ≤ m → pt.char i depth = c)
      ∧ (start < hmtGroupStart pt depth start c m →
        pt.char (hmtGroupStart pt depth start c m - 1) depth ≠ c) := by
  induction m with
  | zero =>
    refine ⟨?_, ?_⟩
    · intro i _ hi
      rw [Nat.le_zero.mp hi]
      exact hc
    · intro hlt
      exact absurd hlt (Nat.not_lt_zero _)
  | succ m ih =>
    rw [hmtGroupStart]
    split
    · next hm =>
      obtain ⟨hall, hborder⟩ := ih hm.2 hm.1
      refine ⟨?_, hborder⟩
      intro i hi hi'
      rcases Nat.eq_or_lt_of_le hi' with rfl | hlt
      · exact hc
      · exact hall i hi (Nat.le_of_lt_succ hlt)
    · next hm =>
      refine ⟨?_, ?_⟩
      · intro i hi hi'
        rw [Nat.le_antisymm hi' hi]
        exact hc
      · intro hlt heq
        exact hm ⟨Nat.le_of_lt_succ hlt, heq⟩

theorem hmtGroupEnd_same (stop : Nat) (hc : pt.char m depth = c) :
    (∀ i, m ≤ i → i ≤ hmtGroupEnd pt depth stop c m → pt.char i depth = c)
      ∧ (hmtGroupEnd pt depth stop c m < stop →
        pt.char (hmtGroupEnd pt depth stop c m + 1) depth ≠ c) := by
  fun_induction hmtGroupEnd pt depth stop c m with
  | case1 m hm ih =>
    obtain ⟨hall, hborder⟩ := ih hm.2
    refine ⟨?_, hborder⟩
    intro i hi hi'
    rcases Nat.eq_or_lt_of_le hi with rfl | hlt
    · exact hc
    · exact hall i hlt hi'
  | case2 m hm =>
    refine ⟨?_, ?_⟩
    · intro i hi hi'
      rw [Nat.le_antisymm hi' hi]
      exact hc
    · intro hlt heq
      exact hm ⟨hlt, heq⟩

/-- 範囲は、中央の group と、それより大きい文字の並びと、小さい文字の並びに分かれる。 -/
structure HmtSplit (pt : Hmt) (depth start stop bs be : Nat) : Prop where
  start_le : start ≤ bs
  le : bs ≤ be
  le_stop : be ≤ stop
  ne_zero : pt.char bs depth ≠ 0
  group : ∀ i, bs ≤ i → i ≤ be → pt.char i depth = pt.char bs depth
  higher : ∀ i, start ≤ i → i < bs → (pt.char bs depth).toNat < (pt.char i depth).toNat
  lower : ∀ i, be < i → i ≤ stop → (pt.char i depth).toNat < (pt.char bs depth).toNat

theorem HmtSplit.of_center {bs be : Nat} (hr : pt.Ready) (h : HmtCommon pt depth start stop)
    (hm : pt.char m depth ≠ 0) (hbs : start ≤ bs) (hbsm : bs ≤ m) (hmbe : m ≤ be)
    (hbe : be ≤ stop) (hup : ∀ i, bs ≤ i → i ≤ m → pt.char i depth = pt.char m depth)
    (hdown : ∀ i, m ≤ i → i ≤ be → pt.char i depth = pt.char m depth)
    (hupBorder : start < bs → pt.char (bs - 1) depth ≠ pt.char m depth)
    (hdownBorder : be < stop → pt.char (be + 1) depth ≠ pt.char m depth) :
    HmtSplit pt depth start stop bs be := by
  have hc : pt.char bs depth = pt.char m depth := hup bs (Nat.le_refl bs) hbsm
  have hne {i : Nat} (hi : pt.char i depth ≠ pt.char m depth) :
      (pt.char i depth).toNat ≠ (pt.char m depth).toNat := fun heq => hi (UInt8.toNat_inj.mp heq)
  refine ⟨hbs, Nat.le_trans hbsm hmbe, hbe, by rw [hc]; exact hm, ?_, ?_, ?_⟩
  · intro i hi hi'
    rw [hc]
    rcases Nat.le_total i m with hle | hle
    · exact hup i hi hle
    · exact hdown i hle hi'
  · intro i hi hi'
    have h1 := h.char_le hr hi (Nat.le_sub_one_of_lt hi') (show bs - 1 ≤ stop by omega)
    have h2 := h.char_le hr (show start ≤ bs - 1 by omega) (Nat.sub_le bs 1)
      (show bs ≤ stop by omega)
    have h3 := hne (hupBorder (by omega))
    rw [hc] at h2 ⊢
    omega
  · intro i hi hi'
    have h1 := h.char_le hr (show start ≤ be + 1 by omega) hi hi'
    have h2 := h.char_le hr (show start ≤ be by omega) (show be ≤ be + 1 by omega) (by omega)
    have h3 := hne (hdownBorder (by omega))
    rw [hdown be hmbe (Nat.le_refl be)] at h2
    rw [hc]
    omega

theorem hmtFindCenterGroupBorder_split (hr : pt.Ready) (h : HmtCommon pt depth start stop)
    (hstart : pt.char start depth ≠ 0) :
    HmtSplit pt depth start stop (hmtFindCenterGroupBorder pt depth start stop).1
      (hmtFindCenterGroupBorder pt depth start stop).2 := by
  have hle := h.le
  have hm : (start + stop) >>> 1 = (start + stop) / 2 := Nat.shiftRight_eq_div_pow _ _
  have hcenter : pt.char ((start + stop) >>> 1) depth ≠ 0 := by
    rcases Nat.eq_or_lt_of_le h.le with heq | hlt
    · have hms : (start + stop) >>> 1 = start := by omega
      rw [hms]
      exact hstart
    · exact h.char_ne_zero hr (show start ≤ (start + stop) >>> 1 by omega) (by omega)
        (Nat.le_refl stop)
  have hs := hmtGroupStart_bounds pt depth start (pt.char ((start + stop) >>> 1) depth)
    ((start + stop) >>> 1) (by omega)
  have he := hmtGroupEnd_bounds pt depth stop (pt.char ((start + stop) >>> 1) depth)
    ((start + stop) >>> 1) (by omega)
  have hup := hmtGroupStart_same (rfl : pt.char ((start + stop) >>> 1) depth = _)
    (show start ≤ (start + stop) >>> 1 by omega)
  have hdown := hmtGroupEnd_same stop (rfl : pt.char ((start + stop) >>> 1) depth = _)
  exact .of_center hr h hcenter hs.1 hs.2 he.1 he.2 hup.1 hdown.1 hup.2 hdown.2

end Border

/-! ## 探索木 -/

/--
`m` は、`start` から `stop` までの範囲を `depth` 文字目から探すときの入口である。

範囲が `depth` 文字で終わる pattern 一つなら、それが入口である。さもなければ入口は中央の group の先頭で、
表には group の上下と次の文字の入口が書いてある。
-/
inductive HmtEnter (pt : Hmt) (t : HmtTables) : Nat → Nat → Nat → Nat → Prop
  | leaf {depth i : Nat} (hend : pt.char i depth = 0) : HmtEnter pt t depth i i i
  | node {depth start stop bs be : Nat} (higher lower next : Nat)
      (hsplit : HmtSplit pt depth start stop bs be)
      (hnoHigher : bs = start → t.higherJumpTable (pt.index bs depth) = -1)
      (hhigher : bs ≠ start → t.higherJumpTable (pt.index bs depth) = higher)
      (hnoLower : be = stop → t.lowerJumpTable (pt.index bs depth) = -1)
      (hlower : be ≠ stop → t.lowerJumpTable (pt.index bs depth) = lower)
      (hnext : t.nextLevelEnterPointTable (pt.index bs depth) = next)
      (enterHigher : bs ≠ start → HmtEnter pt t depth start (bs - 1) higher)
      (enterLower : be ≠ stop → HmtEnter pt t depth (be + 1) stop lower)
      (enterNext : HmtEnter pt t (depth + 1) bs be next) : HmtEnter pt t depth start stop bs

/-- 二組の表は、添字 `idx` の行き先が同じである。 -/
structure JumpAgree (t t' : HmtTables) (idx : Nat) : Prop where
  higher : t'.higherJumpTable idx = t.higherJumpTable idx
  lower : t'.lowerJumpTable idx = t.lowerJumpTable idx
  next : t'.nextLevelEnterPointTable idx = t.nextLevelEnterPointTable idx

theorem HmtEnter.congr {pt : Hmt} {t t' : HmtTables} {depth start stop m : Nat} (hr : pt.Ready)
    (h : HmtEnter pt t depth start stop m) (hstop : stop < pt.cnt)
    (hagree : ∀ i d, start ≤ i → i ≤ stop → depth ≤ d → d < pt.patternLenMax →
      JumpAgree t t' (pt.index i d)) :
    HmtEnter pt t' depth start stop m := by
  induction h with
  | leaf hend => exact .leaf hend
  | @node depth start stop bs be higher lower next hsplit hnoHigher hhigher hnoLower hlower hnext
      _ _ _ ihHigher ihLower ihNext =>
    have hb1 := hsplit.start_le
    have hb2 := hsplit.le
    have hb3 := hsplit.le_stop
    have hdepth : depth < pt.patternLenMax :=
      Nat.lt_trans (Hmt.Ready.char_ne_zero.mp hsplit.ne_zero)
        (hr.length_lt (show bs < pt.cnt by omega))
    have hself := hagree bs depth hb1 (by omega) (Nat.le_refl depth) hdepth
    refine .node higher lower next hsplit ?_ ?_ ?_ ?_ ?_ ?_ ?_ ?_
    · rw [hself.higher]; exact hnoHigher
    · rw [hself.higher]; exact hhigher
    · rw [hself.lower]; exact hnoLower
    · rw [hself.lower]; exact hlower
    · rw [hself.next]; exact hnext
    · intro hne
      exact ihHigher hne (by omega) fun i d h1 h2 => hagree i d h1 (by omega)
    · intro hne
      exact ihLower hne (by omega) fun i d h1 h2 => hagree i d (by omega) h2
    · exact ihNext (by omega) fun i d h1 h2 h3 => hagree i d (by omega) (by omega) (by omega)

/-! ## `hmt_fill_jump_tables` -/

/-- `hmt_fill_jump_tables` は範囲の探索木を作り、範囲の外と他の表に触れない。 -/
structure HmtFilled (pt : Hmt) (depth start stop : Nat) (t t' : HmtTables) (m : Nat) : Prop where
  enter : HmtEnter pt t' depth start stop m
  frame : ∀ i d, d < pt.patternLenMax → ¬ (start ≤ i ∧ i ≤ stop ∧ depth ≤ d) →
    JumpAgree t t' (pt.index i d)
  someone : t'.someoneElseMatchedTable = t.someoneElseMatchedTable
  lengths : t'.patternsLength = t.patternsLength

/-- group の上または下の範囲。範囲が無ければ -1 を返し、表に触れない。 -/
structure HmtSide (pt : Hmt) (depth start stop : Nat) (none : Prop) (t : HmtTables)
    (side : Int × HmtTables) : Prop where
  absent : none → side = (-1, t)
  present : ¬ none → ∃ m : Nat, side.1 = m ∧ HmtFilled pt depth start stop t side.2 m

section Fill

variable {pt : Hmt} {t t' t'' : HmtTables} {depth start stop bs be idx k : Nat}

namespace JumpAgree

theorem refl (t : HmtTables) (idx : Nat) : JumpAgree t t idx := ⟨rfl, rfl, rfl⟩

theorem trans (h : JumpAgree t t' idx) (h' : JumpAgree t' t'' idx) : JumpAgree t t'' idx where
  higher := h'.higher.trans h.higher
  lower := h'.lower.trans h.lower
  next := h'.next.trans h.next

theorem setJump (t : HmtTables) (higher lower : Int) (hne : idx ≠ k) :
    JumpAgree t (t.setJump k higher lower) idx where
  higher := Function.update_of_ne hne _ _
  lower := Function.update_of_ne hne _ _
  next := rfl

theorem setNext (t : HmtTables) (next : Int) (hne : idx ≠ k) :
    JumpAgree t (t.setNext k next) idx where
  higher := rfl
  lower := rfl
  next := Function.update_of_ne hne _ _

end JumpAgree

namespace HmtSide

variable {none : Prop} {side : Int × HmtTables}

theorem frame (h : HmtSide pt depth start stop none t side) (i d : Nat)
    (hd : d < pt.patternLenMax) (hout : ¬ (start ≤ i ∧ i ≤ stop ∧ depth ≤ d)) :
    JumpAgree t side.2 (pt.index i d) := by
  by_cases hnone : none
  · rw [h.absent hnone]
    exact .refl t _
  · obtain ⟨m, -, hfilled⟩ := h.present hnone
    exact hfilled.frame i d hd hout

theorem someone (h : HmtSide pt depth start stop none t side) :
    side.2.someoneElseMatchedTable = t.someoneElseMatchedTable := by
  by_cases hnone : none
  · rw [h.absent hnone]
  · obtain ⟨m, -, hfilled⟩ := h.present hnone
    exact hfilled.someone

theorem lengths (h : HmtSide pt depth start stop none t side) :
    side.2.patternsLength = t.patternsLength := by
  by_cases hnone : none
  · rw [h.absent hnone]
  · obtain ⟨m, -, hfilled⟩ := h.present hnone
    exact hfilled.lengths

theorem exists_filled (h : HmtSide pt depth start stop none t side) :
    ∃ m : Nat, ¬ none → side.1 = m ∧ HmtFilled pt depth start stop t side.2 m := by
  by_cases hnone : none
  · exact ⟨0, fun hn => absurd hnone hn⟩
  · obtain ⟨m, hm⟩ := h.present hnone
    exact ⟨m, fun _ => hm⟩

end HmtSide

theorem HmtFilled.node (hr : pt.Ready) (higher lower : Int × HmtTables) (next : Nat × HmtTables)
    (hlt : stop < pt.cnt) (hsplit : HmtSplit pt depth start stop bs be)
    (hhigher : HmtSide pt depth start (bs - 1) (bs = start) t higher)
    (hlower : HmtSide pt depth (be + 1) stop (be = stop) higher.2 lower)
    (hnext : HmtFilled pt (depth + 1) bs be
      (lower.2.setJump (pt.index bs depth) higher.1 lower.1) next.2 next.1) :
    HmtFilled pt depth start stop t (next.2.setNext (pt.index bs depth) next.1) bs := by
  have hb1 := hsplit.start_le
  have hb2 := hsplit.le
  have hb3 := hsplit.le_stop
  have hdepth : depth < pt.patternLenMax :=
    Nat.lt_trans (Hmt.Ready.char_ne_zero.mp hsplit.ne_zero)
      (hr.length_lt (show bs < pt.cnt by omega))
  -- 入口の項は、次の文字の範囲を作る間に変わらない
  have hself := hnext.frame bs depth hdepth (by omega)
  have hrest (i d : Nat) (hd : d < pt.patternLenMax) (hne : ¬ (i = bs ∧ d = depth))
      (hout : ¬ (bs ≤ i ∧ i ≤ be ∧ depth + 1 ≤ d)) :
      JumpAgree lower.2 (next.2.setNext (pt.index bs depth) next.1) (pt.index i d) := by
    have hidx : pt.index i d ≠ pt.index bs depth := fun h => hne (hr.index_inj hd hdepth h)
    exact ((JumpAgree.setJump _ _ _ hidx).trans (hnext.frame i d hd hout)).trans
      (.setNext _ _ hidx)
  have hhighAt : next.2.higherJumpTable (pt.index bs depth) = higher.1 :=
    hself.higher.trans (Function.update_self _ _ _)
  have hlowAt : next.2.lowerJumpTable (pt.index bs depth) = lower.1 :=
    hself.lower.trans (Function.update_self _ _ _)
  refine ⟨?_, ?_, ?_, ?_⟩
  · obtain ⟨mh, hmh⟩ := hhigher.exists_filled
    obtain ⟨ml, hml⟩ := hlower.exists_filled
    refine .node mh ml next.1 hsplit ?_ ?_ ?_ ?_ ?_ ?_ ?_ ?_
    · intro hbs
      exact hhighAt.trans (by rw [hhigher.absent hbs])
    · intro hbs
      exact hhighAt.trans (hmh hbs).1
    · intro hbe
      exact hlowAt.trans (by rw [hlower.absent hbe])
    · intro hbe
      exact hlowAt.trans (hml hbe).1
    · exact Function.update_self _ _ _
    · intro hbs
      refine (hmh hbs).2.enter.congr hr (by omega) ?_
      intro i d hi hi' hd hd'
      exact (hlower.frame i d hd' (by omega)).trans (hrest i d hd' (by omega) (by omega))
    · intro hbe
      refine (hml hbe).2.enter.congr hr hlt ?_
      intro i d hi hi' hd hd'
      exact hrest i d hd' (by omega) (by omega)
    · refine hnext.enter.congr hr (by omega) ?_
      intro i d hi hi' hd hd'
      refine .setNext _ _ fun h => ?_
      have hinj := hr.index_inj hd' hdepth h
      omega
  · intro i d hd hout
    have h1 := hhigher.frame i d hd (by omega)
    have h2 := hlower.frame i d hd (by omega)
    exact (h1.trans h2).trans (hrest i d hd (by omega) (by omega))
  · exact hnext.someone.trans (hlower.someone.trans hhigher.someone)
  · exact hnext.lengths.trans (hlower.lengths.trans hhigher.lengths)

theorem hmtFillJumpTables_filled (hr : pt.Ready) (depth start stop : Nat) (h : start ≤ stop)
    (t : HmtTables) (hcommon : HmtCommon pt depth start stop) :
    HmtFilled pt depth start stop t (hmtFillJumpTables pt depth start stop h t).2
      (hmtFillJumpTables pt depth start stop h t).1 := by
  have hlen : (pt.pattern start).length < pt.patternLenMax :=
    hr.length_lt (Nat.lt_of_le_of_lt h hcommon.lt)
  have hlong := hcommon.long start (Nat.le_refl start) h
  generalize hfill : hmtFillJumpTables pt depth start stop h t = r
  rw [hmtFillJumpTables, dif_neg (by omega)] at hfill
  by_cases hc : pt.char start depth = 0
  · rw [if_pos hc] at hfill
    -- NUL で終わる pattern は範囲の最後にしか無いので、範囲は一つだけである
    obtain rfl : start = stop := by
      by_contra hne
      exact hcommon.char_ne_zero hr (Nat.le_refl start) (by omega) (Nat.le_refl stop) hc
    subst hfill
    exact ⟨.leaf hc, fun i d _ _ => .refl t _, rfl, rfl⟩
  · rw [if_neg hc] at hfill
    have hsplit := hmtFindCenterGroupBorder_split hr hcommon hc
    have hb1 := hsplit.start_le
    have hb2 := hsplit.le
    have hb3 := hsplit.le_stop
    extract_lets bs be hb higher lower idx t1 next at hfill
    subst hfill
    refine .node hr higher lower next hcommon.lt hsplit ⟨?_, ?_⟩ ⟨?_, ?_⟩ ?_
    · intro hbs
      exact dif_pos hbs
    · intro hbs
      rw [show higher = _ from dif_neg hbs]
      exact ⟨_, rfl, hmtFillJumpTables_filled hr depth start (bs - 1) _ t
        (hcommon.sub (Nat.le_refl start) (by omega) (by omega))⟩
    · intro hbe
      exact dif_pos hbe
    · intro hbe
      rw [show lower = _ from dif_neg hbe]
      exact ⟨_, rfl, hmtFillJumpTables_filled hr depth (be + 1) stop _ higher.2
        (hcommon.sub (by omega) (by omega) (Nat.le_refl stop))⟩
    · exact hmtFillJumpTables_filled hr (depth + 1) bs be _ t1
        ((hcommon.sub hb1 hb2 hb3).succ hsplit.ne_zero hsplit.group)
termination_by (pt.patternLenMax - depth, stop - start)

end Fill

/-! ## `hmt_find_someone_else_matched` -/

section SomeoneElse

variable {pt : Hmt} {t : HmtTables} {lengthes : Nat → Nat} {idx i k : Nat}

/-- `k` 番の pattern は、`idx` 番の先頭 `i` 文字までに収まる。 -/
def HmtShorter (pt : Hmt) (lengthes : Nat → Nat) (idx i k : Nat) : Prop :=
  lengthes k ≤ i ∧ (pt.pattern idx).take (lengthes k) = (pt.pattern k).take (lengthes k)

theorem hmtFindShorter_first (pt : Hmt) (lengthes : Nat → Nat) (idx i k : Nat) :
    (hmtFindShorter pt lengthes idx i k = -1
      ∧ ∀ j, k ≤ j → j < pt.cnt → ¬ HmtShorter pt lengthes idx i j)
    ∨ ∃ m : Nat, hmtFindShorter pt lengthes idx i k = m ∧ m < pt.cnt
      ∧ HmtShorter pt lengthes idx i m
      ∧ ∀ j, k ≤ j → j < m → ¬ HmtShorter pt lengthes idx i j := by
  -- 飛ばした番号は条件に合わない
  have hskip {k : Nat} (hk : ¬ HmtShorter pt lengthes idx i k) {P : Nat → Prop}
      (h : ∀ j, k + 1 ≤ j → P j → ¬ HmtShorter pt lengthes idx i j) :
      ∀ j, k ≤ j → P j → ¬ HmtShorter pt lengthes idx i j := by
    intro j hj hP
    rcases Nat.eq_or_lt_of_le hj with rfl | hlt
    · exact hk
    · exact h j hlt hP
  fun_induction hmtFindShorter pt lengthes idx i k with
  | case1 k hk hlong ih =>
    have hnot : ¬ HmtShorter pt lengthes idx i k := fun h => by
      have hle := h.1
      omega
    rcases ih with ⟨hr, hall⟩ | ⟨m, hr, hm, hshort, hall⟩
    · exact .inl ⟨hr, hskip hnot hall⟩
    · exact .inr ⟨m, hr, hm, hshort, hskip hnot hall⟩
  | case2 k hk hlong hne ih =>
    have hnot : ¬ HmtShorter pt lengthes idx i k := fun h => hne h.2
    rcases ih with ⟨hr, hall⟩ | ⟨m, hr, hm, hshort, hall⟩
    · exact .inl ⟨hr, hskip hnot hall⟩
    · exact .inr ⟨m, hr, hm, hshort, hskip hnot hall⟩
  | case3 k hk hlong heq =>
    refine .inr ⟨k, rfl, hk, ⟨by omega, not_not.mp heq⟩, ?_⟩
    intro j hj hlt
    omega
  | case4 k hk =>
    refine .inl ⟨rfl, ?_⟩
    intro j hj hlt
    omega

/-- `n` は、長さ `d` 以下で `i` 番の prefix である pattern のうち最も長いものの番号。無ければ -1。 -/
def HmtFallback (pt : Hmt) (n : Int) (i d : Nat) : Prop :=
  (n = -1 ∧ ∀ k < pt.cnt, (pt.pattern k).length ≤ d → ¬ pt.pattern k <+: pt.pattern i)
  ∨ ∃ m : Nat, n = m ∧ m < pt.cnt ∧ (pt.pattern m).length ≤ d ∧ pt.pattern m <+: pt.pattern i
    ∧ ∀ k < pt.cnt, (pt.pattern k).length ≤ d → pt.pattern k <+: pt.pattern i →
      (pt.pattern k).length ≤ (pt.pattern m).length

theorem hmtFindShorter_fallback {d : Nat} (hr : pt.Ready)
    (hlen : ∀ j < pt.cnt, lengthes j = (pt.pattern j).length) (hi : i < pt.cnt)
    (hd : d < (pt.pattern i).length) :
    HmtFallback pt (hmtFindShorter pt lengthes i d (i + 1)) i d := by
  have hshorter {k : Nat} (hk : k < pt.cnt) :
      HmtShorter pt lengthes i d k ↔ (pt.pattern k).length ≤ d ∧ pt.pattern k <+: pt.pattern i := by
    unfold HmtShorter
    rw [hlen k hk, List.take_length, List.prefix_iff_eq_take, eq_comm]
  -- `i` 番の真の prefix は、`i` 番より後ろにある
  have hafter {k : Nat} (hk : (pt.pattern k).length ≤ d) (hpre : pt.pattern k <+: pt.pattern i) :
      i + 1 ≤ k := by
    rcases Nat.lt_trichotomy k i with hlt | rfl | hlt
    · exact absurd hpre (hr.above hlt hi).not_head
    · omega
    · exact hlt
  rcases hmtFindShorter_first pt lengthes i d (i + 1) with ⟨hn, hall⟩ | ⟨m, hn, hm, hshort, hall⟩
  · refine .inl ⟨hn, ?_⟩
    intro k hk hkd hpre
    exact hall k (hafter hkd hpre) hk ((hshorter hk).mpr ⟨hkd, hpre⟩)
  · obtain ⟨hmd, hmpre⟩ := (hshorter hm).mp hshort
    refine .inr ⟨m, hn, hm, hmd, hmpre, ?_⟩
    intro k hk hkd hpre
    rcases Nat.lt_trichotomy k m with hlt | rfl | hlt
    · exact absurd ((hshorter hk).mpr ⟨hkd, hpre⟩) (hall k (hafter hkd hpre) hlt)
    · exact Nat.le_refl _
    · exact Nat.le_of_lt ((hr.above hlt hk).length_lt hmpre hpre)

structure HmtMatchesSet (pt : Hmt) (P : Nat → Nat → Prop) (t t' : HmtTables) : Prop where
  lengths : t'.patternsLength = t.patternsLength
  written : ∀ j e, e < pt.patternLenMax → P j e →
    t'.someoneElseMatchedTable (pt.index j e) = hmtFindShorter pt t.patternsLength j e (j + 1)
  frame : ∀ j e, e < pt.patternLenMax → ¬ P j e →
    t'.someoneElseMatchedTable (pt.index j e) = t.someoneElseMatchedTable (pt.index j e)

theorem HmtMatchesSet.trans {P Q R : Nat → Nat → Prop} {t t' t'' : HmtTables}
    (h : HmtMatchesSet pt P t t') (h' : HmtMatchesSet pt Q t' t'')
    (hR : ∀ j e, R j e ↔ P j e ∨ Q j e) : HmtMatchesSet pt R t t'' where
  lengths := h'.lengths.trans h.lengths
  written j e he hRe := by
    by_cases hQ : Q j e
    · rw [h'.written j e he hQ, h.lengths]
    · rw [h'.frame j e he hQ]
      exact h.written j e he (((hR j e).mp hRe).resolve_right hQ)
  frame j e he hRe := by
    rw [h'.frame j e he fun hQ => hRe ((hR j e).mpr (.inr hQ))]
    exact h.frame j e he fun hP => hRe ((hR j e).mpr (.inl hP))

theorem hmtSetMatch_set (hr : pt.Ready) (t : HmtTables) (hi : i < pt.patternLenMax) :
    HmtMatchesSet pt (fun j e => j = idx ∧ e = i) t (hmtSetMatch pt idx t i) where
  lengths := rfl
  written j e _ hP := by
    obtain ⟨rfl, rfl⟩ := hP
    exact Function.update_self _ _ _
  frame j e he hP := Function.update_of_ne (fun h => hP (hr.index_inj he hi h)) _ _

theorem hmtSetMatch_foldl (hr : pt.Ready) (t : HmtTables) (idx n : Nat)
    (hn : n ≤ pt.patternLenMax) :
    HmtMatchesSet pt (fun j e => j = idx ∧ e < n) t
      ((List.range n).foldl (hmtSetMatch pt idx) t) := by
  induction n with
  | zero => exact ⟨rfl, fun j e _ h => absurd h.2 (Nat.not_lt_zero e), fun _ _ _ _ => rfl⟩
  | succ n ih =>
    rw [List.range_succ, List.foldl_append]
    refine (ih (Nat.le_of_succ_le hn)).trans (hmtSetMatch_set hr _ hn) ?_
    intro j e
    rw [Nat.lt_succ_iff_lt_or_eq, and_or_left]

theorem hmtFindSomeoneElseMatched_foldl (hr : pt.Ready) (t : HmtTables) (n : Nat)
    (hlen : ∀ j < n, t.patternsLength j ≤ pt.patternLenMax) :
    HmtMatchesSet pt (fun j e => j < n ∧ e < t.patternsLength j) t
      ((List.range n).foldl (hmtFindSomeoneElseMatched pt) t) := by
  induction n with
  | zero => exact ⟨rfl, fun j e _ h => absurd h.1 (Nat.not_lt_zero j), fun _ _ _ _ => rfl⟩
  | succ n ih =>
    rw [List.range_succ, List.foldl_append]
    have ih' := ih fun j hj => hlen j (Nat.lt_succ_of_lt hj)
    generalize (List.range n).foldl (hmtFindSomeoneElseMatched pt) t = t1 at ih' ⊢
    have hstep : HmtMatchesSet pt (fun j e => j = n ∧ e < t.patternsLength n) t1
        (hmtFindSomeoneElseMatched pt t1 n) := by
      unfold hmtFindSomeoneElseMatched
      rw [ih'.lengths]
      exact hmtSetMatch_foldl hr t1 n _ (hlen n (Nat.lt_succ_self n))
    refine ih'.trans hstep ?_
    intro j e
    rw [Nat.lt_succ_iff_lt_or_eq, or_and_right]
    constructor
    · rintro (h | ⟨rfl, h⟩)
      · exact .inl h
      · exact .inr ⟨rfl, h⟩
    · rintro (h | ⟨rfl, h⟩)
      · exact .inl h
      · exact .inr ⟨rfl, h⟩

end SomeoneElse

/-! ## `hmt_compile` -/

theorem HmtEnter.transfer {pt pt' : Hmt} {t : HmtTables} {depth start stop m : Nat}
    (hitems : pt'.items = pt.items) (hshift : pt'.patternLenMaxShift = pt.patternLenMaxShift)
    (h : HmtEnter pt t depth start stop m) : HmtEnter pt' t depth start stop m := by
  have hchar (i d : Nat) : pt.char i d = pt'.char i d := by
    unfold Hmt.char Hmt.pattern
    rw [hitems]
  have hindex (i d : Nat) : pt.index i d = pt'.index i d := by
    unfold Hmt.index
    rw [hshift]
  induction h with
  | leaf hend => exact .leaf (by rw [← hchar]; exact hend)
  | node higher lower next hsplit hnoHigher hhigher hnoLower hlower hnext _ _ _ ihHigher ihLower
      ihNext =>
    rw [hindex] at hnoHigher hhigher hnoLower hlower hnext
    obtain ⟨h1, h2, h3, h4, h5, h6, h7⟩ := hsplit
    simp only [hchar] at h4 h5 h6 h7
    exact .node higher lower next ⟨h1, h2, h3, h4, h5, h6, h7⟩ hnoHigher hhigher hnoLower hlower
      hnext ihHigher ihLower ihNext

structure Hmt.Compiled (pt : Hmt) : Prop where
  ready : pt.Ready
  pos : 0 < pt.cnt
  enter : ∃ m : Nat, pt.enterPoint = m ∧ HmtEnter pt pt.tables 0 0 (pt.cnt - 1) m
  lengths : ∀ i < pt.cnt, pt.tables.patternsLength i = (pt.pattern i).length
  someone : ∀ i < pt.cnt, ∀ d < (pt.pattern i).length,
    HmtFallback pt (pt.tables.someoneElseMatchedTable (pt.index i d)) i d

theorem HmtCommon.all {pt : Hmt} (h : 0 < pt.cnt) : HmtCommon pt 0 0 (pt.cnt - 1) where
  le := Nat.zero_le _
  lt := Nat.sub_one_lt_of_lt h
  same _ _ _ := rfl
  long _ _ _ := Nat.zero_le _

theorem hmtFillSomeoneElseMatchedTable_fallback {pt : Hmt} (hr : pt.Ready) (heap : HmtTables) :
    let t := hmtFillSomeoneElseMatchedTable pt (hmtFillPatternsLengthTable pt heap)
    (∀ i < pt.cnt, t.patternsLength i = (pt.pattern i).length)
      ∧ ∀ i < pt.cnt, ∀ d < (pt.pattern i).length,
        HmtFallback pt (t.someoneElseMatchedTable (pt.index i d)) i d := by
  intro t
  have hlen : ∀ i < pt.cnt,
      (hmtFillPatternsLengthTable pt heap).patternsLength i = (pt.pattern i).length := by
    intro i hi
    have hle := Nat.le_of_lt (hr.length_lt hi)
    show (if i < pt.cnt then min (pt.pattern i).length pt.patternLenMax else _) = _
    rw [if_pos hi, Nat.min_eq_left hle]
  have hset : HmtMatchesSet pt _ _ t :=
    hmtFindSomeoneElseMatched_foldl hr (hmtFillPatternsLengthTable pt heap) pt.cnt fun j hj => by
      rw [hlen j hj]
      exact Nat.le_of_lt (hr.length_lt hj)
  refine ⟨?_, ?_⟩
  · intro i hi
    rw [hset.lengths]
    exact hlen i hi
  · intro i hi d hd
    have hdlt : d < pt.patternLenMax := Nat.lt_trans hd (hr.length_lt hi)
    rw [hset.written i d hdlt ⟨hi, by rw [hlen i hi]; exact hd⟩]
    exact hmtFindShorter_fallback hr hlen hi hd

theorem hmtCompile_compiled {pt : Hmt} (hr : pt.Ready) (hne : pt.items ≠ []) (heap : HmtTables) :
    (hmtCompile pt heap).1 = 0 ∧ (hmtCompile pt heap).2.Compiled
      ∧ (hmtCompile pt heap).2.items = pt.items := by
  have hpos : 0 < pt.cnt := List.length_pos_iff.mpr hne
  have hsize : pt.cnt <<< pt.patternLenMaxShift ≠ 0 := by
    rw [Nat.shiftLeft_eq]
    exact Nat.ne_of_gt (Nat.mul_pos hpos (Nat.two_pow_pos _))
  generalize hbase : ({ pt with enterPoint := -1, tables := .null } : Hmt) = base
  have hready : base.Ready := by
    subst hbase
    exact ⟨hr.sorted, hr.short, hr.lenMax, hr.max_lt, hr.few⟩
  have hposBase : 0 < base.cnt := by
    subst hbase
    exact hpos
  obtain ⟨hlen, hsome⟩ := hmtFillSomeoneElseMatchedTable_fallback hready heap
  generalize ht : hmtFillSomeoneElseMatchedTable base (hmtFillPatternsLengthTable base heap) = t
    at hlen hsome
  have hfilled := hmtFillJumpTables_filled hready 0 0 (base.cnt - 1) (Nat.zero_le _) t
    (.all hposBase)
  generalize hr' : hmtFillJumpTables base 0 0 (base.cnt - 1) (Nat.zero_le _) t = r at hfilled
  have hcompile : hmtCompile pt heap
      = (0, { base with enterPoint := r.1, tables := r.2 }) := by
    subst hbase ht hr'
    exact if_neg hsize
  rw [hcompile]
  refine ⟨rfl, ⟨⟨hready.sorted, hready.short, hready.lenMax, hready.max_lt, hready.few⟩, hposBase,
    ?_, ?_, ?_⟩, ?_⟩
  · refine ⟨r.1, rfl, hfilled.enter.transfer ?_ ?_⟩
    · rfl
    · rfl
  · intro i hi
    exact (congrFun hfilled.lengths i).trans (hlen i hi)
  · intro i hi d hd
    have h := hsome i hi d hd
    rw [← hfilled.someone] at h
    exact h
  · subst hbase
    rfl

end Esq
