import Esq.Basic
import Esq.Infra.CircleOrder
import Esq.Infra.Run
import Esq.Libs.Memory

/-!
# dashboard

`src/dashboard.c`。番号のついた item が赤黒木に並び、item は 4096 byte の `buf` に文字列を一つ持つ。

どの関数も、初めから終わりまで spinlock を持つので、呼び出しが一つの step になる（`DashboardOp`）。
木が挿入と削除の後にどう回転したかは外から与える。番号は item を一つに決めるので、木は番号の木とし、
item の中身は番号から引く。

`char * buf` を渡す `vsnprintf` の結果は `Vsnprintf` で表す。失敗したときに `buf` へ何を書き残すかは決まっていない。
-/

namespace Esq

open Infra

def dashboardBufferSize : Nat := 4096

def esqDashboardOpStop : Int := 9

/-- `esq_dashboard_item_t`。`id` と `rb` は木が持つ。 -/
structure EsqDashboardItem where
  opcode : Int
  bufStringLength : Fin dashboardBufferSize
  buf : List UInt8
  length_buf : buf.length = dashboardBufferSize

def EsqDashboardItem.zero : EsqDashboardItem where
  opcode := 0
  bufStringLength := ⟨0, by decide⟩
  buf := List.replicate dashboardBufferSize 0
  length_buf := List.length_replicate

/-- `vsnprintf` の作った文字列。`int` に収まらない長さは作れない。 -/
inductive Vsnprintf where
  | text (s : List UInt8) (length_lt : s.length < 2 ^ 31)
  /-- 失敗した。`left` は、渡された領域に書き残したものである -/
  | failed (left : List UInt8)

def Vsnprintf.r : Vsnprintf → Int
  | text s _ => s.length
  | failed _ => -1

def Vsnprintf.put (size : Nat) : Vsnprintf → List UInt8
  | text s _ => s.take (size - 1) ++ [0]
  | failed left => left.take size

theorem Vsnprintf.length_put {size : Nat} (h : 0 < size) (v : Vsnprintf) :
    (v.put size).length ≤ size := by
  cases v with
  | text s =>
    unfold put
    rw [List.length_append, List.length_take, List.length_singleton]
    omega
  | failed left => exact List.length_take_le _ _

/-- `buf` の `offset` から後ろに書く。領域の外には書かない。 -/
def EsqDashboardItem.write (e : EsqDashboardItem) (offset : Nat) (bytes : List UInt8)
    (h : offset + bytes.length ≤ dashboardBufferSize) : EsqDashboardItem :=
  { e with
    buf := splice e.buf offset bytes
    length_buf := by
      unfold splice
      rw [List.length_append, List.length_append, List.length_take, List.length_drop, e.length_buf]
      omega }

/-! ## 木 -/

def esqDashboardItemCompare (a b : Int) : Int := toInt32 (a - b)

structure EsqDashboard where
  rb : SearchTree Int
  item : Int → EsqDashboardItem
  idMax : Int

def EsqDashboard.init : EsqDashboard where
  rb := .nil
  item := fun _ => .zero
  idMax := 0

def EsqDashboard.find (d : EsqDashboard) (id : Int) : Option Int :=
  d.rb.find (esqDashboardItemCompare id)

def EsqDashboard.setItem (d : EsqDashboard) (id : Int) (e : EsqDashboardItem) : EsqDashboard :=
  { d with item := Function.update d.item id e }

/-- 空いた番号を探す loop。木の要素より一つ多く試せば、空きがあれば見つかる。 -/
def esqDashboardNewLoop (rb : SearchTree Int) : Nat → Int → Option Int
  | 0, _ => none
  | n + 1, i =>
    let i := if i < 0 then 0 else i
    match rb.find (esqDashboardItemCompare i) with
    | some _ => esqDashboardNewLoop rb n (toInt32 (i + 1))
    | none => some i

/-- `esq_dashboard_new`。空いた番号が無ければ、loop は終わらない。 -/
def esqDashboardNew (d : EsqDashboard) (mallocOk : Bool)
    (rotation : SearchTree Int → SearchTree Int) : Option (EsqDashboard × Int) :=
  if !mallocOk then some (d, -1)
  else
    (esqDashboardNewLoop d.rb (d.rb.toList.length + 1) d.idMax).map fun i =>
      ({ rb := (d.rb.insert (esqDashboardItemCompare i) i).rotate rotation
         item := Function.update d.item i .zero
         idMax := toInt32 (i + 1) }, i)

def esqDashboardSetOpcode (d : EsqDashboard) (id opcode : Int) : EsqDashboard × Int :=
  match d.find id with
  | none => (d, esqErrorNotfound)
  | some e => (d.setItem e { d.item e with opcode }, esqOk)

def esqDashboardGetOpcode (d : EsqDashboard) (id : Int) : Except Int Int :=
  match d.find id with
  | none => .error esqErrorNotfound
  | some e => .ok (d.item e).opcode

/-- `offset` から後ろの領域に `vsnprintf` する。 -/
def EsqDashboardItem.vsnprintf (e : EsqDashboardItem) (offset : Nat)
    (h : offset < dashboardBufferSize) (out : Vsnprintf) : EsqDashboardItem :=
  e.write offset (out.put (dashboardBufferSize - offset)) (by
    have := out.length_put (show 0 < dashboardBufferSize - offset by omega)
    omega)

/--
`esq_dashboard_snprintf` の、item を見つけた後。

戻り値は `DASHBOARD_BUFFER_SIZE` と比べ、`buf_string_length` には、この呼び出しの長さだけを入れる。
-/
def EsqDashboardItem.snprintf (e : EsqDashboardItem) (offset : Nat)
    (h : offset < dashboardBufferSize) (out : Vsnprintf) : EsqDashboardItem :=
  if hr : out.r ≤ 0 ∨ (dashboardBufferSize : Int) ≤ out.r then e.vsnprintf offset h out
  else { e.vsnprintf offset h out with bufStringLength := ⟨out.r.toNat, by omega⟩ }

/-- `esq_dashboard_snprintf`。書けたときも、入りきらなかったときも、`vsnprintf` の戻り値を返す。 -/
def esqDashboardSnprintf (d : EsqDashboard) (id offset : Int) (out : Vsnprintf) :
    EsqDashboard × Int :=
  if ho : offset < 0 ∨ (dashboardBufferSize : Int) ≤ offset then (d, -1)
  else
    match d.find id with
    | none => (d, -1)
    | some e => (d.setItem e ((d.item e).snprintf offset.toNat (by omega) out), out.r)

def esqDashboardNotifyStopToAllTasks (d : EsqDashboard) : EsqDashboard × Nat :=
  ({ d with item := fun id => if id ∈ d.rb.toList then { d.item id with opcode := esqDashboardOpStop }
      else d.item id }, d.rb.toList.length)

def esqDashboardRemoveAllItems (d : EsqDashboard) : EsqDashboard := { d with rb := .nil }

def esqDashboardGetItemCount (d : EsqDashboard) : Nat := d.rb.toList.length

/--
`esq_dashboard_get_item_string`

戻り値の文字列は error で、成功したときは `NULL` である。`buf` に写した後の `buf` と `*buflen` も返す。
-/
def esqDashboardGetItemString (d : EsqDashboard) (id : Int) (buf : List UInt8) (buflen : Int) :
    Option String × List UInt8 × Int :=
  match d.find id with
  | none => (some "dashboard item not found", buf, buflen)
  | some e =>
    let length := (d.item e).bufStringLength
    if length.val ≠ 0 then
      if (length.val : Int) > buflen then (some "design issue, buffer size too small", buf, buflen)
      else (none, splice buf 0 ((d.item e).buf.take (length + 1)), length.val)
    else (none, buf, 0)

/-- `esq_mkc_get_dashboard_item_string` が、`DASHBOARD_BUFFER_SIZE` byte の buffer に読む。 -/
def esqMkcGetDashboardItemString (d : EsqDashboard) (id : Int) : Except String (List UInt8) :=
  match esqDashboardGetItemString d id (List.replicate dashboardBufferSize 0)
    dashboardBufferSize with
  | (some errs, _, _) => .error errs
  | (none, buffer, length) => .ok (buffer.take length.toNat)

/-- `esq_dashboard_set_item_string`。`behind` は、`string` のすぐ後ろの byte である。 -/
def esqDashboardSetItemString (d : EsqDashboard) (id : Int) (string : List UInt8)
    (behind : UInt8) : EsqDashboard × Option String :=
  if h : dashboardBufferSize ≤ string.length then (d, some "string too long")
  else
    match d.find id with
    | none => (d, some "dashboard item not found")
    | some e =>
      let item := (d.item e).write 0 (string ++ [behind]) (by simp; omega)
      (d.setItem e { item with bufStringLength := ⟨string.length, by omega⟩ }, none)

def esqDashboardRemoveItem (d : EsqDashboard) (id : Int)
    (rotation : SearchTree Int → SearchTree Int) : EsqDashboard × Int :=
  match d.find id with
  | none => (d, -1)
  | some e => ({ d with rb := (d.rb.erase e).rotate rotation }, 0)

/-! ## 呼び出しの列 -/

inductive DashboardOp where
  | new (mallocOk : Bool) (rotation : SearchTree Int → SearchTree Int)
  | setOpcode (id opcode : Int)
  | snprintf (id offset : Int) (out : Vsnprintf)
  | notifyStop
  | removeAll
  | setItemString (id : Int) (string : List UInt8) (behind : UInt8)
  | removeItem (id : Int) (rotation : SearchTree Int → SearchTree Int)

def EsqDashboard.step (d : EsqDashboard) : DashboardOp → Option EsqDashboard
  | .new mallocOk rotation => (esqDashboardNew d mallocOk rotation).map Prod.fst
  | .setOpcode id opcode => some (esqDashboardSetOpcode d id opcode).1
  | .snprintf id offset out => some (esqDashboardSnprintf d id offset out).1
  | .notifyStop => some (esqDashboardNotifyStopToAllTasks d).1
  | .removeAll => some (esqDashboardRemoveAllItems d)
  | .setItemString id string behind => some (esqDashboardSetItemString d id string behind).1
  | .removeItem id rotation => some (esqDashboardRemoveItem d id rotation).1

/-! ## 不変量 -/

/-- 木は番号の順に並び、番号は負でない `int` である。 -/
structure EsqDashboard.Inv (d : EsqDashboard) : Prop where
  sorted : d.rb.Sorted esqDashboardItemCompare
  range : ∀ x ∈ d.rb.toList, 0 ≤ x ∧ x < 2 ^ 31
  idMax : toInt32 d.idMax = d.idMax

section

variable {d d' : EsqDashboard} {id x i : Int}

theorem orderedOn_ids {xs : List Int} (h : ∀ x ∈ xs, 0 ≤ x ∧ x < 2 ^ 31) :
    OrderedOn esqDashboardItemCompare xs :=
  InArc.orderedOn ⟨0, fun x hx => by have := h x hx; omega⟩

/-- **`RB_FIND` は、その番号の item を見つける。** -/
theorem EsqDashboard.Inv.find_iff (h : d.Inv) :
    d.find id = some x ↔ x ∈ d.rb.toList ∧ x = toInt32 id := by
  constructor
  · intro hf
    obtain ⟨hx, hz⟩ := SearchTree.find_eq_some hf
    refine ⟨hx, ?_⟩
    have := h.range x hx
    unfold esqDashboardItemCompare at hz
    rw [toInt32_eq] at hz ⊢
    omega
  · rintro ⟨hx, rfl⟩
    -- 比べ方は、`id` を `int` に収めても変わらない
    have hsame : d.find id = d.rb.find (esqDashboardItemCompare (toInt32 id)) := by
      refine (SearchTree.descend_congr id fun y _ => ?_).1
      unfold esqDashboardItemCompare
      simp only [toInt32_eq]
      omega
    have hne := h.sorted.find_ne_none (orderedOn_ids h.range) hx
    obtain ⟨y, hy⟩ := Option.ne_none_iff_exists'.mp hne
    obtain ⟨hym, hyz⟩ := SearchTree.find_eq_some hy
    have hyr := h.range y hym
    have hxr := h.range _ hx
    rw [hsame, hy]
    unfold esqDashboardItemCompare at hyz
    rw [toInt32_eq] at hyz
    congr 1
    omega

theorem EsqDashboard.Inv.find_of_mem (h : d.Inv) (hx : x ∈ d.rb.toList) : d.find x = some x := by
  refine h.find_iff.mpr ⟨hx, ?_⟩
  have := h.range x hx
  rw [toInt32_of_range] <;> omega

theorem esqDashboardNewLoop_free {rb : SearchTree Int} : ∀ {n : Nat} {i j : Int},
    toInt32 i = i → esqDashboardNewLoop rb n i = some j →
      rb.find (esqDashboardItemCompare j) = none ∧ 0 ≤ j ∧ j < 2 ^ 31
  | 0, _, _, _, h => by cases h
  | n + 1, i, j, hi, h => by
    unfold esqDashboardNewLoop at h
    simp only at h
    split at h
    · have hb := toInt32_bounds ((if i < 0 then 0 else i) + 1)
      exact esqDashboardNewLoop_free (toInt32_of_range hb.1 hb.2) h
    · next hnone =>
      obtain rfl := Option.some.inj h
      refine ⟨hnone, ?_⟩
      have := toInt32_bounds i
      rw [hi] at this
      split <;> omega

theorem EsqDashboard.Inv.init : EsqDashboard.init.Inv where
  sorted := List.Pairwise.nil
  range := fun x hx => by cases hx
  idMax := by decide

theorem EsqDashboard.Inv.sublist {rb : SearchTree Int} (h : d.Inv)
    (hsub : rb.toList.Sublist d.rb.toList) : ({ d with rb } : EsqDashboard).Inv where
  sorted := h.sorted.sublist hsub
  range := fun x hx => h.range x (hsub.subset hx)
  idMax := h.idMax

theorem EsqDashboard.Inv.new {mallocOk : Bool} {rotation : SearchTree Int → SearchTree Int}
    (h : d.Inv) (hnew : esqDashboardNew d mallocOk rotation = some (d', i)) : d'.Inv := by
  unfold esqDashboardNew at hnew
  split at hnew
  · cases hnew
    exact h
  · obtain ⟨j, hj, he⟩ := Option.map_eq_some_iff.mp hnew
    cases he
    obtain ⟨hfree, hi0, hi1⟩ := esqDashboardNewLoop_free h.idMax hj
    have hperm := SearchTree.perm_insert (a := i) hfree
    have hrange : ∀ x ∈ i :: d.rb.toList, 0 ≤ x ∧ x < 2 ^ 31 :=
      List.forall_mem_cons.mpr ⟨⟨hi0, hi1⟩, h.range⟩
    have hb := toInt32_bounds (i + 1)
    refine ⟨?_, fun x hx => ?_, toInt32_of_range hb.1 hb.2⟩
    · unfold SearchTree.Sorted
      rw [SearchTree.toList_rotate]
      exact h.sorted.insert (orderedOn_ids hrange) hfree
    · rw [SearchTree.toList_rotate] at hx
      exact hrange x (hperm.mem_iff.mp hx)

theorem EsqDashboard.Inv.of_rb (h : d.Inv) (hrb : d'.rb = d.rb) (hmax : d'.idMax = d.idMax) :
    d'.Inv := ⟨hrb ▸ h.sorted, hrb ▸ h.range, hmax ▸ h.idMax⟩

theorem esqDashboardSnprintf_rb (d : EsqDashboard) (id offset : Int) (out : Vsnprintf) :
    (esqDashboardSnprintf d id offset out).1.rb = d.rb ∧
      (esqDashboardSnprintf d id offset out).1.idMax = d.idMax := by
  unfold esqDashboardSnprintf
  split
  · exact ⟨rfl, rfl⟩
  · split <;> exact ⟨rfl, rfl⟩

theorem EsqDashboard.Inv.step (h : d.Inv) {op : DashboardOp} (hs : d.step op = some d') :
    d'.Inv := by
  cases op with
  | new mallocOk rotation =>
    obtain ⟨⟨e, i⟩, hnew, rfl⟩ := Option.map_eq_some_iff.mp hs
    exact h.new hnew
  | setOpcode id opcode =>
    cases hs
    unfold esqDashboardSetOpcode
    split
    · exact h
    · exact h.of_rb rfl rfl
  | snprintf id offset out =>
    cases hs
    exact h.of_rb (esqDashboardSnprintf_rb d id offset out).1
      (esqDashboardSnprintf_rb d id offset out).2
  | notifyStop =>
    cases hs
    exact h.of_rb rfl rfl
  | removeAll =>
    cases hs
    exact h.sublist (List.nil_sublist _)
  | setItemString id string behind =>
    cases hs
    unfold esqDashboardSetItemString
    split
    · exact h
    · split
      · exact h
      · exact h.of_rb rfl rfl
  | removeItem id rotation =>
    cases hs
    unfold esqDashboardRemoveItem
    split
    · exact h
    · refine h.sublist ?_
      rw [SearchTree.toList_rotate]
      exact SearchTree.erase_sublist _ _

/-- **起動してからのどの呼び出しの列でも、不変量が成り立つ。** -/
theorem EsqDashboard.Inv.reach {ops : List DashboardOp}
    (hrun : runFrom EsqDashboard.step .init ops = some d) : d.Inv :=
  runFrom_invariant' (fun _ _ _ h hs => h.step hs) .init hrun

end

end Esq
