import Esq.Basic
import Esq.Libs.Sscanf

/-!
# head match tree

`libs/head-match-tree/`。文字列の先頭に一致する、最も長い pattern を探す。

`hmt_add` は pattern を大きい順に並べて持つ。`hmt_compile` は並びの上に四つの表を作る。

* `next_level_enter_point_table`：次の文字へ進むときの入口
* `higher_jump_table`：文字が大きいときの行き先
* `lower_jump_table`：文字が小さいときの行き先
* `someone_else_matched_table`：そこで行き止まりになったときに採る、短い pattern

表は pattern の番号と文字の位置で引く。`malloc` した直後の中身は決まらないので、`hmt_compile` には
引数として与える。`malloc` は失敗しないものとする。表の番号は `char` で持つが、`HMT_ITEM_MAX` により
110 を超えないので、整数のまま扱う。
-/

namespace Esq

/-! ## 構造体 -/

/-- `hmt_item_t`。`userdata` は pointer の値で、NULL は 0 である。 -/
structure HmtItem where
  pattern : CStr
  userdata : Nat
  /-- `malloc_item` が NULL でない -/
  mallocItem : Bool
deriving DecidableEq, Inhabited

structure HmtTables where
  higherJumpTable : Nat → Int
  lowerJumpTable : Nat → Int
  someoneElseMatchedTable : Nat → Int
  nextLevelEnterPointTable : Nat → Int
  patternsLength : Nat → Nat

structure Hmt where
  max : Int
  enterPoint : Int
  tables : HmtTables
  patternLenMax : Nat
  patternLenMaxShift : Nat
  items : List HmtItem

namespace Hmt

def cnt (pt : Hmt) : Nat := pt.items.length

def pattern (pt : Hmt) (i : Nat) : List UInt8 := (pt.items.getD i default).pattern.bytes

/-- `pt->items[i].pattern[depth]`。終端の NUL は 0 である。 -/
def char (pt : Hmt) (i depth : Nat) : UInt8 := (pt.pattern i).getD depth 0

/-- 表の添字 `(m << HMT_PATH_LEN_MAX_SHIFT) + depth`。 -/
def index (pt : Hmt) (m depth : Nat) : Nat := (m <<< pt.patternLenMaxShift) + depth

end Hmt

/-! ## `hmt_new2` -/

def hmtScale16 : Int := 0
def hmtScale32 : Int := 1
def hmtScale64 : Int := 2
def hmtScale128 : Int := 3
def hmtScale512 : Int := 4

/-- `HMT_ITEM_MAX`。番号を `char` で持つための上限。 -/
def hmtItemMax : Int := 111

/-- `scale` が決める、`pattern_len_max` と `pattern_len_max_shift`。 -/
def hmtPathLenMax (scale : Int) : Nat × Nat :=
  if scale = hmtScale16 then (16, 4)
  else if scale = hmtScale32 then (32, 5)
  else if scale = hmtScale64 then (64, 6)
  else if scale = hmtScale128 then (128, 7)
  else if scale = hmtScale512 then (512, 9)
  else (128, 7)

def HmtTables.null : HmtTables where
  higherJumpTable _ := 0
  lowerJumpTable _ := 0
  someoneElseMatchedTable _ := 0
  nextLevelEnterPointTable _ := 0
  patternsLength _ := 0

def hmtNew2 (max scale : Int) : Option Hmt :=
  if hmtItemMax ≤ max then none
  else
    let (lenMax, lenMaxShift) := hmtPathLenMax scale
    some { max, enterPoint := -1, tables := .null, patternLenMax := lenMax,
           patternLenMaxShift := lenMaxShift, items := [] }

/-! ## `hmt_add` -/

def strncmp : List UInt8 → List UInt8 → Nat → Int
  | _, _, 0 => 0
  | a, b, n + 1 =>
    let x := a.headD 0
    let y := b.headD 0
    if x ≠ y then (x.toNat : Int) - y.toNat
    else if x = 0 then 0
    else strncmp a.tail b.tail n

def hmtItemCompare (a b : HmtItem) (lenMax : Nat) : Int :=
  strncmp a.pattern.bytes b.pattern.bytes lenMax

/-- `__hmt_add` の二つの loop。`k` を、それより小さい最初の item の前に置く。同じ pattern があれば `none`。 -/
def hmtInsert (k : HmtItem) (lenMax : Nat) : List HmtItem → Option (List HmtItem)
  | [] => some [k]
  | item :: items =>
    let r := hmtItemCompare k item lenMax
    if 0 < r then some (k :: item :: items)
    else if r < 0 then (hmtInsert k lenMax items).map (item :: ·)
    else none

def hmtAddItem (pt : Hmt) (k : HmtItem) : Int × Hmt :=
  if pt.max ≤ pt.cnt then (-1, pt)
  else
    match hmtInsert k pt.patternLenMax pt.items with
    | none => (-3, pt)
    | some items => (0, { pt with items })

def hmtAddWith (pt : Hmt) (pattern : CStr) (userdata : Nat) (mallocItem : Bool) : Int × Hmt :=
  let l := pattern.strnlen pt.patternLenMax
  if pt.patternLenMax ≤ l ∨ l = 0 then (-2, pt)
  else hmtAddItem pt { pattern, userdata, mallocItem }

def hmtAdd (pt : Hmt) (pattern : CStr) (userdata : Nat) : Int × Hmt :=
  hmtAddWith pt pattern userdata false

def hmtAdd2 (pt : Hmt) (pattern : CStr) (userdata : Nat) : Int × Hmt :=
  hmtAddWith pt pattern userdata true

/-! ## `hmt_compile` -/

/-- `hmt_find_center_group_border` の、`m` から前へ進む loop。 -/
def hmtGroupStart (pt : Hmt) (depth start : Nat) (c : UInt8) : Nat → Nat
  | 0 => 0
  | i + 1 => if start ≤ i ∧ pt.char i depth = c then hmtGroupStart pt depth start c i else i + 1

/-- `hmt_find_center_group_border` の、`m` から後ろへ進む loop。 -/
def hmtGroupEnd (pt : Hmt) (depth stop : Nat) (c : UInt8) (i : Nat) : Nat :=
  if i + 1 ≤ stop ∧ pt.char (i + 1) depth = c then hmtGroupEnd pt depth stop c (i + 1) else i
termination_by stop - i

/-- `hmt_find_center_group_border`。`*bs` と `*be`。 -/
def hmtFindCenterGroupBorder (pt : Hmt) (depth start stop : Nat) : Nat × Nat :=
  let m := (start + stop) >>> 1
  let c := pt.char m depth
  (hmtGroupStart pt depth start c m, hmtGroupEnd pt depth stop c m)

theorem hmtGroupStart_bounds (pt : Hmt) (depth start : Nat) (c : UInt8) (m : Nat)
    (h : start ≤ m) : start ≤ hmtGroupStart pt depth start c m
      ∧ hmtGroupStart pt depth start c m ≤ m := by
  induction m with
  | zero => exact ⟨h, Nat.le_refl 0⟩
  | succ m ih =>
    rw [hmtGroupStart]
    split
    · next hm =>
      obtain ⟨h1, h2⟩ := ih hm.1
      exact ⟨h1, Nat.le_succ_of_le h2⟩
    · exact ⟨h, Nat.le_refl _⟩

theorem hmtGroupEnd_bounds (pt : Hmt) (depth stop : Nat) (c : UInt8) (m : Nat) (h : m ≤ stop) :
    m ≤ hmtGroupEnd pt depth stop c m ∧ hmtGroupEnd pt depth stop c m ≤ stop := by
  fun_induction hmtGroupEnd pt depth stop c m with
  | case1 m hm ih =>
    obtain ⟨h1, h2⟩ := ih hm.1
    exact ⟨Nat.le_of_succ_le h1, h2⟩
  | case2 m hm => exact ⟨Nat.le_refl m, h⟩

theorem hmtFindCenterGroupBorder_bounds (pt : Hmt) (depth : Nat) {start stop : Nat}
    (h : start ≤ stop) :
    start ≤ (hmtFindCenterGroupBorder pt depth start stop).1
      ∧ (hmtFindCenterGroupBorder pt depth start stop).1
        ≤ (hmtFindCenterGroupBorder pt depth start stop).2
      ∧ (hmtFindCenterGroupBorder pt depth start stop).2 ≤ stop := by
  have hm : start ≤ (start + stop) >>> 1 ∧ (start + stop) >>> 1 ≤ stop := by
    rw [Nat.shiftRight_eq_div_pow]
    omega
  unfold hmtFindCenterGroupBorder
  have hs := hmtGroupStart_bounds pt depth start (pt.char ((start + stop) >>> 1) depth) _ hm.1
  have he := hmtGroupEnd_bounds pt depth stop (pt.char ((start + stop) >>> 1) depth) _ hm.2
  exact ⟨hs.1, Nat.le_trans hs.2 he.1, he.2⟩

namespace HmtTables

/-- `higher_jump_table[idx]` と `lower_jump_table[idx]` に書く。 -/
def setJump (t : HmtTables) (idx : Nat) (higher lower : Int) : HmtTables :=
  { t with
    higherJumpTable := Function.update t.higherJumpTable idx higher
    lowerJumpTable := Function.update t.lowerJumpTable idx lower }

def setNext (t : HmtTables) (idx : Nat) (next : Int) : HmtTables :=
  { t with nextLevelEnterPointTable := Function.update t.nextLevelEnterPointTable idx next }

end HmtTables

/-- `hmt_fill_jump_tables`。`start` から `stop` までの item の、`depth` から先の表を作る。 -/
def hmtFillJumpTables (pt : Hmt) (depth start stop : Nat) (h : start ≤ stop) (t : HmtTables) :
    Nat × HmtTables :=
  if hdepth : pt.patternLenMax ≤ depth then (start, t)
  else if pt.char start depth = 0 then (start, t)
  else
    let bs := (hmtFindCenterGroupBorder pt depth start stop).1
    let be := (hmtFindCenterGroupBorder pt depth start stop).2
    have hb := hmtFindCenterGroupBorder_bounds pt depth h
    let higher : Int × HmtTables :=
      if hbs : bs = start then (-1, t)
      else
        let r := hmtFillJumpTables pt depth start (bs - 1) (by omega) t
        (r.1, r.2)
    let lower : Int × HmtTables :=
      if hbe : be = stop then (-1, higher.2)
      else
        let r := hmtFillJumpTables pt depth (be + 1) stop (by omega) higher.2
        (r.1, r.2)
    let idx := pt.index bs depth
    let t := lower.2.setJump idx higher.1 lower.1
    let next := hmtFillJumpTables pt (depth + 1) bs be hb.2.1 t
    (bs, next.2.setNext idx next.1)
termination_by (pt.patternLenMax - depth, stop - start)

def hmtFillPatternsLengthTable (pt : Hmt) (t : HmtTables) : HmtTables :=
  { t with
    patternsLength := fun i =>
      if i < pt.cnt then min (pt.pattern i).length pt.patternLenMax else t.patternsLength i }

/-- `hmt_find_someone_else_matched` の内側の loop。`k` から先で、`idx` の pattern の先頭 `i` 文字までに
収まる最初の pattern を探す。 -/
def hmtFindShorter (pt : Hmt) (lengthes : Nat → Nat) (idx i k : Nat) : Int :=
  if k < pt.cnt then
    if i + 1 ≤ lengthes k then hmtFindShorter pt lengthes idx i (k + 1)
    else if (pt.pattern idx).take (lengthes k) ≠ (pt.pattern k).take (lengthes k) then
      hmtFindShorter pt lengthes idx i (k + 1)
    else k
  else -1
termination_by pt.cnt - k

/-- `hmt_find_someone_else_matched` の外側の loop の一回。`matches[i]` を書く。 -/
def hmtSetMatch (pt : Hmt) (idx : Nat) (t : HmtTables) (i : Nat) : HmtTables :=
  { t with
    someoneElseMatchedTable := Function.update t.someoneElseMatchedTable (pt.index idx i)
      (hmtFindShorter pt t.patternsLength idx i (idx + 1)) }

def hmtFindSomeoneElseMatched (pt : Hmt) (t : HmtTables) (idx : Nat) : HmtTables :=
  (List.range (t.patternsLength idx)).foldl (hmtSetMatch pt idx) t

def hmtFillSomeoneElseMatchedTable (pt : Hmt) (t : HmtTables) : HmtTables :=
  (List.range pt.cnt).foldl (hmtFindSomeoneElseMatched pt) t

/-- `hmt_compile`。`heap` は `malloc` した表の中身である。 -/
def hmtCompile (pt : Hmt) (heap : HmtTables) : Int × Hmt :=
  -- `hmt_free_content`
  let pt := { pt with enterPoint := -1, tables := .null }
  if (pt.cnt <<< pt.patternLenMaxShift) = 0 then (-1, pt)
  else
    let t := hmtFillPatternsLengthTable pt heap
    let t := hmtFillSomeoneElseMatchedTable pt t
    let (r, t) := hmtFillJumpTables pt 0 0 (pt.cnt - 1) (Nat.zero_le _) t
    (0, { pt with enterPoint := r, tables := t })

/-! ## `hmt_match` -/

def schar (c : UInt8) : Int := c.toInt8.toInt

/-- `hmt_match` の戻り値と、`*matched_length` に書く値。書かないときは `none`。 -/
structure HmtMatch where
  userdata : Nat
  matchedLength : Option Nat
deriving DecidableEq, Repr

def HmtMatch.null : HmtMatch := { userdata := 0, matchedLength := none }

def hmtMatched (pt : Hmt) (m : Nat) : HmtMatch where
  userdata := (pt.items.getD m default).userdata
  matchedLength := some (pt.tables.patternsLength m)

def hmtFindSomeoneElse (pt : Hmt) (m depth : Nat) : HmtMatch :=
  let n := pt.tables.someoneElseMatchedTable (pt.index m depth)
  if n = -1 then .null else hmtMatched pt n.toNat

def hmtMatchLoop (pt : Hmt) (string : CStr) : Nat → Nat → Nat → Except Fault HmtMatch
  | 0, _, _ => .error .endless
  | fuel + 1, m, depth =>
    if depth < pt.patternLenMax then
      let c := string.bytes.getD depth 0
      let pc := pt.char m depth
      if pc = 0 then .ok (hmtMatched pt m)
      else if c = pc then
        let n := pt.tables.nextLevelEnterPointTable (pt.index m depth)
        if n = -1 then .ok (hmtFindSomeoneElse pt m depth)
        else hmtMatchLoop pt string fuel n.toNat (depth + 1)
      else if schar c > schar pc then
        let n := pt.tables.higherJumpTable (pt.index m depth)
        if n = -1 then .ok (hmtFindSomeoneElse pt m depth)
        else hmtMatchLoop pt string fuel n.toNat depth
      else
        let n := pt.tables.lowerJumpTable (pt.index m depth)
        if n = -1 then .ok (hmtFindSomeoneElse pt m depth)
        else hmtMatchLoop pt string fuel n.toNat depth
    else .ok .null

def hmtMatch (pt : Hmt) (string : CStr) (fuel : Nat) : Except Fault HmtMatch :=
  if pt.enterPoint = -1 then .ok .null
  else hmtMatchLoop pt string fuel pt.enterPoint.toNat 0

end Esq
