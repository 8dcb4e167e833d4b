import Esq.Dashboard.Basic

/-!
# dashboard に書いた文字列

一つの item に、前の呼び出しの戻り値を足した位置から `esq_dashboard_snprintf` で書き足していき、
`esq_dashboard_get_item_string` で読む。`bee_bucket_sync_session_write_dashboard` がこのように書く。

`buf` には書き足した文字列が揃うが、`buf_string_length` は最後に書いた一切れの長さになる。読めるのは、
初めからその長さまでである。
-/

namespace Esq

open Infra

/-! ## 書き足す呼び出し -/

def DashboardOp.Spares (id : Int) : DashboardOp → Prop
  | .new _ _ | .setOpcode _ _ | .notifyStop => True
  | .removeAll => False
  | .snprintf j _ _ | .setItemString j _ _ | .removeItem j _ => toInt32 j ≠ id

/-- `id` に書き足す呼び出しと、その間に他が行う呼び出し。 -/
inductive DashboardCall (id : Int) where
  | piece (out : Vsnprintf)
  | other (op : DashboardOp) (spares : op.Spares id)

def DashboardCall.text {id : Int} : DashboardCall id → List UInt8
  | piece (.text s _) => s
  | piece (.failed _) => []
  | other _ _ => []

/-- dashboard と、次に書く位置。正の戻り値を足していく。 -/
def dashboardCallStep (id : Int) (st : EsqDashboard × Int) :
    DashboardCall id → Option (EsqDashboard × Int)
  | .piece out =>
    let w := esqDashboardSnprintf st.1 id st.2 out
    some (w.1, if 0 < w.2 then st.2 + w.2 else st.2)
  | .other op _ => (st.1.step op).map fun d => (d, st.2)

def dashboardText {id : Int} (calls : List (DashboardCall id)) : List UInt8 :=
  calls.flatMap DashboardCall.text

structure DashboardReadsBack (id : Int) (calls : List (DashboardCall id))
    (st : EsqDashboard × Int) : Prop where
  /-- 書き足した文字列が、そのまま読める -/
  whole : esqMkcGetDashboardItemString st.1 id = .ok (dashboardText calls)
  /-- 次の文字列が入りきらなければ、戻り値は残りの大きさより小さくならない -/
  reported : ∀ s h, (dashboardBufferSize : Int) ≤ st.2 + s.length →
    dashboardBufferSize - st.2 ≤ (esqDashboardSnprintf st.1 id st.2 (.text s h)).2
  /-- その後で何を呼んでも、入った文字列より先は読めない -/
  bounded : ∀ s h later st', (dashboardBufferSize : Int) ≤ st.2 + s.length →
    runFrom (dashboardCallStep id) st (.piece (.text s h) :: later) = some st' →
    ∃ read, esqMkcGetDashboardItemString st'.1 id = .ok read ∧
      read <+: (dashboardText calls ++ s).take (dashboardBufferSize - 1)

/-- 空でない一切れがちょうど一つであるか、一つも無く、item にも文字列が無い。 -/
def OnePiece (stored : Nat) (texts : List (List UInt8)) : Prop :=
  (texts.filter (· ≠ [])).length = 1 ∨ (∀ s ∈ texts, s = []) ∧ stored = 0

/-! ## 読む -/

section

variable {d d' : EsqDashboard} {id : Int}

/-- **読めるのは、`buf` の初めの `buf_string_length` byte である。** -/
theorem EsqDashboard.Inv.get_item_string (h : d.Inv) (hid : id ∈ d.rb.toList) :
    esqMkcGetDashboardItemString d id
      = .ok ((d.item id).buf.take (d.item id).bufStringLength) := by
  unfold esqMkcGetDashboardItemString esqDashboardGetItemString
  rw [h.find_of_mem hid]
  have hlt := (d.item id).bufStringLength.isLt
  have hbuf := (d.item id).length_buf
  by_cases hz : (d.item id).bufStringLength.val = 0
  · simp [hz]
  · have hle : ¬((d.item id).bufStringLength.val : Int) > dashboardBufferSize := by omega
    simp only [if_pos hz, if_neg hle, Int.toNat_natCast]
    congr 1
    unfold splice
    rw [List.take_zero, List.nil_append, List.take_append_of_le_length, List.take_take]
    · rw [min_eq_left (by omega)]
    · rw [List.length_take]
      omega

/-! ## 一切れを書く -/

theorem esqDashboardSnprintf_of_mem (h : d.Inv) (hid : id ∈ d.rb.toList) {offset : Nat}
    (ho : offset < dashboardBufferSize) (out : Vsnprintf) :
    esqDashboardSnprintf d id offset out
      = (d.setItem id ((d.item id).snprintf offset ho out), out.r) := by
  unfold esqDashboardSnprintf
  rw [dif_neg (by omega), h.find_of_mem hid]
  rfl

theorem esqDashboardSnprintf_of_le {offset : Int} (ho : (dashboardBufferSize : Int) ≤ offset)
    (out : Vsnprintf) : esqDashboardSnprintf d id offset out = (d, -1) := by
  unfold esqDashboardSnprintf
  rw [dif_pos (Or.inr ho)]

theorem EsqDashboardItem.take_write {e : EsqDashboardItem} {offset n : Nat} {bytes : List UInt8}
    (h : offset + bytes.length ≤ dashboardBufferSize) (hn : n ≤ offset + bytes.length) :
    (e.write offset bytes h).buf.take n = (e.buf.take offset ++ bytes).take n := by
  refine List.take_append_of_le_length ?_
  rw [List.length_append, List.length_take_of_le (by rw [e.length_buf]; omega)]
  exact hn

theorem EsqDashboardItem.snprintf_buf (e : EsqDashboardItem) {offset : Nat}
    (h : offset < dashboardBufferSize) (out : Vsnprintf) :
    (e.snprintf offset h out).buf = (e.vsnprintf offset h out).buf := by
  unfold snprintf
  split <;> rfl

theorem EsqDashboardItem.take_snprintf_fits {e : EsqDashboardItem} {offset : Nat} {s : List UInt8}
    (h : offset < dashboardBufferSize) (hs : s.length < 2 ^ 31)
    (hfit : offset + s.length < dashboardBufferSize) :
    (e.snprintf offset h (.text s hs)).buf.take (offset + s.length) = e.buf.take offset ++ s := by
  have hput : (Vsnprintf.text s hs).put (dashboardBufferSize - offset) = s ++ [0] := by
    show s.take _ ++ [0] = _
    rw [List.take_of_length_le (by omega)]
  have hpre : (e.buf.take offset).length = offset :=
    List.length_take_of_le (by rw [e.length_buf]; omega)
  rw [e.snprintf_buf h, vsnprintf, take_write, hput, ← List.append_assoc, List.take_left']
  · rw [List.length_append, hpre]
  · rw [hput, List.length_append]
    omega

theorem EsqDashboardItem.take_snprintf_full {e : EsqDashboardItem} {offset : Nat} {s : List UInt8}
    (h : offset < dashboardBufferSize) (hs : s.length < 2 ^ 31)
    (hfull : dashboardBufferSize ≤ offset + s.length) :
    (e.snprintf offset h (.text s hs)).buf.take (dashboardBufferSize - 1)
      = (e.buf.take offset ++ s).take (dashboardBufferSize - 1) := by
  have hput : (Vsnprintf.text s hs).put (dashboardBufferSize - offset)
      = s.take (dashboardBufferSize - 1 - offset) ++ [0] := by
    show s.take _ ++ [0] = _
    rw [Nat.sub_right_comm]
  have hpre : (e.buf.take offset).length = offset :=
    List.length_take_of_le (by rw [e.length_buf]; omega)
  have hcut : (s.take (dashboardBufferSize - 1 - offset)).length
      = dashboardBufferSize - 1 - offset := List.length_take_of_le (by omega)
  have hright : (e.buf.take offset ++ s).take (dashboardBufferSize - 1)
      = e.buf.take offset ++ s.take (dashboardBufferSize - 1 - offset) := by
    rw [List.take_append, hpre, List.take_of_length_le (l := e.buf.take offset) (by omega)]
  rw [hright, e.snprintf_buf h, vsnprintf, take_write, hput, ← List.append_assoc, List.take_left']
  · rw [List.length_append, hpre, hcut]
    omega
  · rw [hput, List.length_append, hcut, List.length_singleton]
    omega

theorem EsqDashboardItem.snprintf_length {e : EsqDashboardItem} {offset : Nat} {s : List UInt8}
    (h : offset < dashboardBufferSize) (hs : s.length < 2 ^ 31)
    (hfit : s.length < dashboardBufferSize) :
    ((e.snprintf offset h (.text s hs)).bufStringLength : Nat)
      = if s = [] then (e.bufStringLength : Nat) else s.length := by
  unfold snprintf
  by_cases hnil : s = []
  · subst hnil
    rw [dif_pos (Or.inl (by simp [Vsnprintf.r])), if_pos rfl]
    rfl
  · have hpos := List.length_pos_of_ne_nil hnil
    rw [dif_neg (by simp only [Vsnprintf.r]; omega), if_neg hnil]
    rfl

theorem EsqDashboardItem.snprintf_failed (e : EsqDashboardItem) {offset : Nat} (left : List UInt8)
    (h : offset < dashboardBufferSize) :
    (e.snprintf offset h (.failed left)).buf.take offset = e.buf.take offset ∧
      (e.snprintf offset h (.failed left)).bufStringLength = e.bufStringLength := by
  have hpre : (e.buf.take offset).length = offset :=
    List.length_take_of_le (by rw [e.length_buf]; omega)
  constructor
  · rw [e.snprintf_buf h, vsnprintf, take_write _ (Nat.le_add_right _ _), List.take_left' hpre]
  · unfold snprintf
    rw [dif_pos (Or.inl (by simp [Vsnprintf.r]))]
    rfl

/-! ## 他の呼び出し -/

/-- **`id` に触らない呼び出しの後も、`id` の item は同じ文字列を持つ。** -/
theorem EsqDashboard.Inv.spares (h : d.Inv) (hid : id ∈ d.rb.toList) {op : DashboardOp}
    (hop : op.Spares id) (hs : d.step op = some d') :
    id ∈ d'.rb.toList ∧ (d'.item id).buf = (d.item id).buf ∧
      (d'.item id).bufStringLength = (d.item id).bufStringLength := by
  have hne : ∀ j x, toInt32 j ≠ id → d.find j = some x → id ≠ x := fun j x hj hf he =>
    hj ((h.find_iff.mp hf).2.symm.trans he.symm)
  have hset : ∀ x e, id ≠ x → ((d.setItem x e).item id) = d.item id := fun x e hx =>
    Function.update_of_ne hx _ _
  cases op with
  | new mallocOk rotation =>
    obtain ⟨⟨e, i⟩, hnew, rfl⟩ := Option.map_eq_some_iff.mp hs
    unfold esqDashboardNew at hnew
    split at hnew
    · cases hnew
      exact ⟨hid, rfl, rfl⟩
    · obtain ⟨j, hj, he⟩ := Option.map_eq_some_iff.mp hnew
      cases he
      obtain ⟨hfree, -, -⟩ := esqDashboardNewLoop_free h.idMax hj
      -- 新しい番号は空いていたので、`id` とは違う
      have hij : id ≠ i := fun he => by
        have := h.find_of_mem hid
        rw [EsqDashboard.find, he, hfree] at this
        cases this
      refine ⟨?_, ?_⟩
      · rw [SearchTree.toList_rotate]
        exact (SearchTree.perm_insert hfree).mem_iff.mpr (List.mem_cons_of_mem _ hid)
      · show (Function.update d.item i _ id).buf = _ ∧ (Function.update d.item i _ id).bufStringLength = _
        rw [Function.update_of_ne hij]
        exact ⟨rfl, rfl⟩
  | setOpcode j opcode =>
    cases hs
    unfold esqDashboardSetOpcode
    split
    · exact ⟨hid, rfl, rfl⟩
    · next x hx =>
      refine ⟨hid, ?_⟩
      by_cases hxi : id = x
      · subst hxi
        simp [EsqDashboard.setItem]
      · rw [hset x _ hxi]
        exact ⟨rfl, rfl⟩
  | snprintf j offset out =>
    cases hs
    unfold esqDashboardSnprintf
    split
    · exact ⟨hid, rfl, rfl⟩
    · split
      · exact ⟨hid, rfl, rfl⟩
      · next x hx =>
        rw [hset x _ (hne j x hop hx)]
        exact ⟨hid, rfl, rfl⟩
  | notifyStop =>
    cases hs
    refine ⟨hid, ?_⟩
    simp [esqDashboardNotifyStopToAllTasks, hid]
  | removeAll => exact hop.elim
  | setItemString j string behind =>
    cases hs
    unfold esqDashboardSetItemString
    split
    · exact ⟨hid, rfl, rfl⟩
    · split
      · exact ⟨hid, rfl, rfl⟩
      · next x hx =>
        rw [hset x _ (hne j x hop hx)]
        exact ⟨hid, rfl, rfl⟩
  | removeItem j rotation =>
    cases hs
    unfold esqDashboardRemoveItem
    split
    · exact ⟨hid, rfl, rfl⟩
    · next x hx =>
      refine ⟨?_, rfl, rfl⟩
      rw [SearchTree.toList_rotate]
      exact SearchTree.mem_erase_of_ne (hne j x hop hx) hid

/-! ## 書き足す列 -/

/-- 入りきる文字列だけを書いたときの `buf_string_length`。 -/
def lastLength (stored : Nat) (texts : List (List UInt8)) : Nat :=
  texts.foldl (fun l s => if s = [] then l else s.length) stored

/-- `texts` を書き足した後の dashboard と、次に書く位置。`e` は書き始める前の item である。 -/
structure Appended (id : Int) (e : EsqDashboardItem) (texts : List (List UInt8))
    (st : EsqDashboard × Int) : Prop where
  inv : st.1.Inv
  mem : id ∈ st.1.rb.toList
  offset : st.2 = texts.flatten.length
  buf : (st.1.item id).buf.take texts.flatten.length = texts.flatten
  length : ((st.1.item id).bufStringLength : Nat) = lastLength e.bufStringLength texts

variable {e : EsqDashboardItem} {texts : List (List UInt8)} {st st' : EsqDashboard × Int}

theorem Appended.start (h : d.Inv) (hid : id ∈ d.rb.toList) : Appended id (d.item id) [] (d, 0) :=
  ⟨h, hid, rfl, by simp, rfl⟩

theorem dashboardCallStep_piece (h : d.Inv) (hid : id ∈ d.rb.toList) {n : Nat}
    (hn : n < dashboardBufferSize) (out : Vsnprintf) :
    dashboardCallStep id (d, n) (.piece out)
      = some (d.setItem id ((d.item id).snprintf n hn out), n + (max out.r 0)) := by
  unfold dashboardCallStep
  simp only [esqDashboardSnprintf_of_mem h hid hn out, Option.some.injEq, Prod.mk.injEq, true_and]
  split <;> omega

theorem flatten_concat (s : List UInt8) : (texts ++ [s]).flatten = texts.flatten ++ s := by
  rw [List.flatten_append, List.flatten_singleton]

theorem lastLength_concat (stored : Nat) (s : List UInt8) :
    lastLength stored (texts ++ [s]) = if s = [] then lastLength stored texts else s.length := by
  unfold lastLength
  rw [List.foldl_append]
  rfl

/-- **一つの呼び出しは、その文字列を後ろに書き足す。** -/
theorem Appended.step (h : Appended id e texts st) {call : DashboardCall id}
    (hshort : (texts ++ [call.text]).flatten.length < dashboardBufferSize)
    (hs : dashboardCallStep id st call = some st') :
    Appended id e (texts ++ [call.text]) st' := by
  obtain ⟨d, offset⟩ := st
  obtain ⟨hinv, hid, hoffset, hbuf, hlength⟩ := h
  simp only at hinv hid hoffset hbuf hlength
  subst hoffset
  rw [flatten_concat, List.length_append] at hshort
  cases call with
  | other op hop =>
    obtain ⟨d', hd', rfl⟩ := Option.map_eq_some_iff.mp hs
    obtain ⟨hmem, hbuf', hstored⟩ := hinv.spares hid hop hd'
    have hsame : (texts ++ [(DashboardCall.other op hop).text]).flatten = texts.flatten := by
      rw [flatten_concat]
      exact List.append_nil _
    refine ⟨hinv.step hd', hmem, ?_, ?_, ?_⟩
    · rw [hsame]
    · rw [hsame, hbuf', hbuf]
    · rw [hstored, lastLength_concat]
      exact hlength
  | piece out =>
    have hn : texts.flatten.length < dashboardBufferSize := by omega
    rw [dashboardCallStep_piece hinv hid hn] at hs
    obtain rfl := Option.some.inj hs
    have hitem : ((d.setItem id ((d.item id).snprintf _ hn out)).item id)
        = (d.item id).snprintf _ hn out := Function.update_self _ _ _
    cases out with
    | text s hlt =>
      refine ⟨hinv.of_rb rfl rfl, hid, ?_, ?_, ?_⟩
      · rw [flatten_concat, List.length_append]
        show (_ : Int) + max (s.length : Int) 0 = _
        rw [max_eq_left (Int.natCast_nonneg _)]
        rfl
      · rw [hitem, flatten_concat, List.length_append]
        show (EsqDashboardItem.buf _).take (_ + s.length) = _ ++ s
        rw [EsqDashboardItem.take_snprintf_fits hn hlt hshort, hbuf]
      · rw [hitem, EsqDashboardItem.snprintf_length hn hlt (Nat.lt_of_le_of_lt
          (Nat.le_add_left _ _) hshort), lastLength_concat, hlength]
        rfl
    | failed left =>
      have hsame : (texts ++ [(DashboardCall.piece (.failed left) : DashboardCall id).text]).flatten
          = texts.flatten := by
        rw [flatten_concat]
        exact List.append_nil _
      obtain ⟨htake, hstored⟩ := (d.item id).snprintf_failed left hn
      refine ⟨hinv.of_rb rfl rfl, hid, ?_, ?_, ?_⟩
      · rw [hsame]
        show (_ : Int) + max (-1) 0 = _
        rw [max_eq_right (by decide), Int.add_zero]
      · rw [hsame, hitem, htake, hbuf]
      · rw [hitem, hstored, lastLength_concat]
        exact hlength

/-- **書き足す列の後も、`buf` の初めに文字列が揃っている。** -/
theorem Appended.run : ∀ {calls : List (DashboardCall id)} {texts : List (List UInt8)}
    {st st' : EsqDashboard × Int}, Appended id e texts st →
    (texts ++ calls.map DashboardCall.text).flatten.length < dashboardBufferSize →
    runFrom (dashboardCallStep id) st calls = some st' →
    Appended id e (texts ++ calls.map DashboardCall.text) st'
  | [], texts, st, st', h, _, hrun => by
    obtain rfl := Option.some.inj hrun
    rwa [List.map_nil, List.append_nil]
  | call :: calls, texts, st, st', h, hshort, hrun => by
    obtain ⟨mid, hmid, hrest⟩ := runFrom_cons_eq_some.mp hrun
    rw [List.map_cons, ← List.singleton_append, ← List.append_assoc] at hshort ⊢
    refine (h.step ?_ hmid).run hshort hrest
    rw [List.flatten_append, List.length_append] at hshort
    omega

theorem Appended.read (h : Appended id e texts st) :
    esqMkcGetDashboardItemString st.1 id
      = .ok ((st.1.item id).buf.take (lastLength e.bufStringLength texts)) := by
  rw [h.inv.get_item_string h.mem, h.length]

theorem lastLength_filter (stored : Nat) (texts : List (List UInt8)) :
    lastLength stored (texts.filter (· ≠ [])) = lastLength stored texts := by
  induction texts generalizing stored with
  | nil => rfl
  | cons s texts ih =>
    by_cases hs : s = []
    · subst hs
      exact ih stored
    · rw [List.filter_cons_of_pos (by simpa using hs)]
      unfold lastLength
      rw [List.foldl_cons, List.foldl_cons]
      exact ih _

/-- **最後の一切れの長さが全体の長さになるのは、空でない一切れがただ一つのときである。** -/
theorem lastLength_eq_iff (stored : Nat) (texts : List (List UInt8)) :
    lastLength stored texts = texts.flatten.length ↔ OnePiece stored texts := by
  have hflat : (texts.filter (· ≠ [])).flatten = texts.flatten := by
    simpa using List.flatten_filter_ne_nil (L := texts)
  have hne : ∀ s ∈ texts.filter (· ≠ []), s ≠ [] := fun s hs => by
    simpa using (List.mem_filter.mp hs).2
  have hnil : texts.filter (· ≠ []) = [] ↔ ∀ s ∈ texts, s = [] := by
    simp [List.filter_eq_nil_iff]
  unfold OnePiece
  rw [← lastLength_filter, ← hflat, ← hnil]
  generalize texts.filter (· ≠ []) = pieces at hne
  rcases List.eq_nil_or_concat' pieces with rfl | ⟨front, s, rfl⟩
  · simp [lastLength]
  · have hs : s ≠ [] := hne s (by simp)
    rw [lastLength_concat, if_neg hs, flatten_concat, List.length_append]
    have hfront : front.flatten.length = 0 ↔ front = [] := by
      rw [List.length_eq_zero_iff, List.flatten_eq_nil_iff, List.eq_nil_iff_forall_not_mem]
      refine forall₂_congr fun t ht => ?_
      simp [hne t (by simp [ht])]
    simp only [List.length_append, List.length_singleton, Nat.add_eq_right, List.length_eq_zero_iff,
      List.append_eq_nil_iff, List.cons_ne_self, and_false, false_and, or_false]
    rw [← hfront]
    omega

/-! ## 入りきらないとき -/

/-- 終わりまで埋まった `buf`。次に書く位置は `buf` の外にある。 -/
structure Filled (id : Int) (text : List UInt8) (st : EsqDashboard × Int) : Prop where
  inv : st.1.Inv
  mem : id ∈ st.1.rb.toList
  offset : (dashboardBufferSize : Int) ≤ st.2
  buf : (st.1.item id).buf.take (dashboardBufferSize - 1) = text

variable {text s : List UInt8}

theorem Appended.fill (h : Appended id e texts st) (hs : s.length < 2 ^ 31)
    (hshort : texts.flatten.length < dashboardBufferSize)
    (hfull : (dashboardBufferSize : Int) ≤ st.2 + s.length)
    (hstep : dashboardCallStep id st (.piece (.text s hs)) = some st') :
    Filled id ((texts.flatten ++ s).take (dashboardBufferSize - 1)) st' := by
  obtain ⟨d, offset⟩ := st
  obtain ⟨hinv, hid, hoffset, hbuf, -⟩ := h
  simp only at hinv hid hoffset hbuf hfull
  subst hoffset
  rw [dashboardCallStep_piece hinv hid hshort] at hstep
  obtain rfl := Option.some.inj hstep
  have hitem : ((d.setItem id ((d.item id).snprintf _ hshort (.text s hs))).item id)
      = (d.item id).snprintf _ hshort (.text s hs) := Function.update_self _ _ _
  refine ⟨hinv.of_rb rfl rfl, hid, ?_, ?_⟩
  · show (_ : Int) ≤ _ + max (s.length : Int) 0
    omega
  · rw [hitem, EsqDashboardItem.take_snprintf_full hshort hs (by omega), hbuf]

/-- **埋まった `buf` は、書き足しても変わらない。** -/
theorem Filled.step (h : Filled id text st) {call : DashboardCall id}
    (hs : dashboardCallStep id st call = some st') : Filled id text st' := by
  cases call with
  | piece out =>
    unfold dashboardCallStep at hs
    simp only [esqDashboardSnprintf_of_le h.offset out] at hs
    obtain rfl := Option.some.inj hs
    exact h
  | other op hop =>
    obtain ⟨d', hd', rfl⟩ := Option.map_eq_some_iff.mp hs
    obtain ⟨hmem, hbuf, -⟩ := h.inv.spares h.mem hop hd'
    exact ⟨h.inv.step hd', hmem, h.offset, hbuf ▸ h.buf⟩

theorem Filled.read (h : Filled id text st) :
    ∃ read, esqMkcGetDashboardItemString st.1 id = .ok read ∧ read <+: text := by
  refine ⟨_, h.inv.get_item_string h.mem, ?_⟩
  rw [← h.buf]
  have hlt := (st.1.item id).bufStringLength.isLt
  exact List.take_prefix_take_left (by omega)

/-! ## 主結果 -/

/--
**書き足した文字列がそのまま読めるための、ちょうどの条件。**

空でない一切れがただ一つであること（一つも無いときは、item が初めから空であること）。
-/
theorem dashboard_text_iff {ops : List DashboardOp}
    (hreach : runFrom EsqDashboard.step .init ops = some d) (hid : id ∈ d.rb.toList)
    {calls : List (DashboardCall id)} (hshort : (dashboardText calls).length < dashboardBufferSize)
    (hrun : runFrom (dashboardCallStep id) (d, 0) calls = some st) :
    DashboardReadsBack id calls st ↔
      OnePiece (d.item id).bufStringLength (calls.map DashboardCall.text) := by
  have hflat : dashboardText calls = (calls.map DashboardCall.text).flatten :=
    List.flatMap_def
  rw [hflat] at hshort
  have happ : Appended id (d.item id) (calls.map DashboardCall.text) st :=
    (Appended.start (.reach hreach) hid).run hshort hrun
  have hread := happ.read
  rw [← lastLength_eq_iff]
  constructor
  · intro h
    have hwhole := h.whole
    rw [hread, hflat, Except.ok.injEq] at hwhole
    have hlen := congrArg List.length hwhole
    rwa [List.length_take_of_le] at hlen
    rw [(st.1.item id).length_buf, ← happ.length]
    exact (st.1.item id).bufStringLength.isLt.le
  · intro h
    refine ⟨?_, fun s hs hfull => ?_, fun s hs later st' hfull hlater => ?_⟩
    · rw [hread, h, happ.buf, hflat]
    · obtain ⟨d', offset⟩ := st
      obtain rfl : offset = _ := happ.offset
      rw [esqDashboardSnprintf_of_mem happ.inv happ.mem hshort]
      show (dashboardBufferSize : Int) - _ ≤ (s.length : Int)
      omega
    · obtain ⟨mid, hmid, hrest⟩ := runFrom_cons_eq_some.mp hlater
      rw [hflat]
      exact (runFrom_invariant' (fun _ _ _ h hs => h.step hs)
        (happ.fill hs hshort hfull hmid) hrest).read

end

def EsqDashboard.sample : EsqDashboard where
  rb := .node .nil 0 .nil
  item := Function.update EsqDashboard.init.item 0 .zero
  idMax := 1

theorem EsqDashboard.sample_reach :
    runFrom EsqDashboard.step .init [.new true fun t => t] = some .sample := rfl

/-- `"ab"` を一度に書けば、そのまま読める。 -/
theorem dashboard_text_one_piece : ∃ st,
    runFrom (dashboardCallStep 0) (.sample, 0) [.piece (.text [97, 98] (by decide))] = some st ∧
      DashboardReadsBack 0 [.piece (.text [97, 98] (by decide))] st :=
  ⟨_, rfl, (dashboard_text_iff EsqDashboard.sample_reach (List.mem_singleton.mpr rfl) (by decide)
    rfl).mpr (Or.inl rfl)⟩

def twoPieces : List (DashboardCall 0) :=
  [.piece (.text [97] (by decide)), .piece (.text [98] (by decide))]

/-- **`"a"` と `"b"` を続けて書くと、二つを並べたものは読めない。** -/
theorem second_piece_hides_first :
    runFrom EsqDashboard.step .init [.new true fun t => t] = some .sample ∧
      ∃ st, runFrom (dashboardCallStep 0) (.sample, 0) twoPieces = some st ∧
        ¬DashboardReadsBack 0 twoPieces st := by
  refine ⟨rfl, _, rfl, fun h => ?_⟩
  have happ := (Appended.start (.reach EsqDashboard.sample_reach)
    (List.mem_singleton.mpr (rfl : (0 : Int) = 0))).run
    (show ([] ++ twoPieces.map DashboardCall.text).flatten.length < dashboardBufferSize by decide)
    rfl
  have hwhole := h.whole
  rw [happ.read, Except.ok.injEq] at hwhole
  -- 最後の一切れの長さは 1 である
  have hlen := congrArg List.length hwhole
  rw [List.length_take] at hlen
  exact absurd (hlen.symm.trans_le (min_le_left _ _)) (by decide)

end Esq
