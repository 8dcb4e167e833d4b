import Esq.PostData.Body

/-!
# loop の一回り

callback がいつも 0 を返すとき、`pdpTurn` は token を一つ読んで、その要素を渡す。
-/

namespace Esq

open Infra

section

variable {σ : Type*} {beyond : Nat → UInt8} {buf text rest line v w : List UInt8}
  {cb : PostDataParserAppCb σ} {s s' : PdpState σ} {e : PostEt} {k n : Nat}

/-! ## buffer を読む -/

@[simp] theorem length_readBytes (beyond : Nat → UInt8) (buf : List UInt8) (k n : Nat) :
    (readBytes beyond buf k n).length = n := by
  simp [readBytes]

theorem readBytes_inside (beyond : Nat → UInt8) (h : k + n ≤ buf.length) :
    readBytes beyond buf k n = (buf.drop k).take n := by
  apply List.ext_getElem
  · rw [length_readBytes, List.length_take, List.length_drop]
    omega
  · intro j hj _
    rw [length_readBytes] at hj
    have hlt : k + j < buf.length := by omega
    simp [readBytes, byteAt, hlt]

theorem readBytes_across (beyond : Nat → UInt8) (hk : k ≤ buf.length) (hn : buf.length ≤ k + n) :
    readBytes beyond buf k n = buf.drop k ++ (List.range (k + n - buf.length)).map beyond := by
  apply List.ext_getElem
  · rw [length_readBytes, List.length_append, List.length_drop, List.length_map, List.length_range]
    omega
  · intro j hj _
    by_cases hlt : k + j < buf.length
    · rw [List.getElem_append_left (by rw [List.length_drop]; omega)]
      simp [readBytes, byteAt, hlt]
    · rw [List.getElem_append_right (by rw [List.length_drop]; omega)]
      have hidx : k + j - buf.length = j - (buf.length - k) := by omega
      simp [readBytes, byteAt, hlt, hidx]

theorem readBytes_text (beyond : Nat → UInt8) (h : buf.drop k = text ++ rest)
    (hk : k ≤ buf.length) :
    readBytes beyond buf k text.length = text := by
  have hlen := congrArg List.length h
  rw [List.length_drop, List.length_append] at hlen
  rw [readBytes_inside beyond (by omega), h, List.take_left]

theorem drop_add_of_drop (h : buf.drop k = text ++ rest) : buf.drop (k + text.length) = rest := by
  rw [← List.drop_drop, h, List.drop_left]

theorem readBytes_rest (beyond : Nat → UInt8) (hk : k ≤ buf.length) :
    readBytes beyond buf k (buf.length - k) = buf.drop k := by
  rw [readBytes_inside beyond (by omega), List.take_of_length_le (by rw [List.length_drop])]

/-! ## 要素を渡す -/

/-- 要素の列 `es` を渡し、種類が `e` になり、`n` byte 進んだ。 -/
structure Consumed (s s' : PdpState σ) (e : PostEt) (n : Nat) (es : List PostElement) : Prop where
  last : s'.lastItemType = e
  i : s'.i = s.i + n
  elements : elements s'.events = elements s.events ++ es

@[simp] theorem elements_read (s : PdpState σ) (k n : Nat) :
    elements (s.read k n).events = elements s.events := by
  simp [PdpState.read, elements, PdpEvent.element?]

variable (hcb : ∀ a e b, (cb a e b).1 = 0)

include hcb

theorem consumeItem2_took (beyond : Nat → UInt8) (buf : List UInt8) (s : PdpState σ) (e : PostEt)
    {len vlen : Int} (value : Nat) {m : Nat} (hlen : len = n) (hvlen : vlen = m) :
    ∃ s', consumeItem2 beyond buf cb s e len value vlen = (.next, s') ∧
      Consumed s s' e n [⟨e, readBytes beyond buf value m⟩] := by
  subst hlen hvlen
  unfold consumeItem2 PdpState.call
  dsimp only
  rw [if_neg (by simp [hcb])]
  refine ⟨_, rfl, rfl, ?_, ?_⟩
  · dsimp only
    omega
  · simp [elements, PdpEvent.element?]

theorem consumeItem_took (beyond : Nat → UInt8) (s : PdpState σ) (e : PostEt) {len : Int}
    (hlen : len = text.length) (hrest : buf.drop s.i = text ++ rest) (hi : s.i ≤ buf.length) :
    ∃ s', consumeItem beyond buf cb s e len = (.next, s') ∧
      Consumed s s' e text.length [⟨e, text⟩] := by
  have h := consumeItem2_took hcb beyond buf s e s.i hlen hlen
  rwa [readBytes_text beyond hrest hi] at h

omit hcb

/-! ## 残りを見る -/

theorem looksAt_true (hrest : buf.drop s.i = text ++ rest) (hi : s.i ≤ buf.length) {least : Nat}
    (h : least ≤ text.length + rest.length) :
    looksAt beyond buf s least text = (true, s.read s.i text.length) := by
  have hlen := congrArg List.length hrest
  rw [List.length_drop, List.length_append] at hlen
  unfold looksAt
  rw [if_pos (by omega), readBytes_text beyond hrest hi]
  simp

theorem looksAt_spec (beyond : Nat → UInt8) (buf text : List UInt8) (s : PdpState σ) {least : Nat}
    (hleast : text.length ≤ least) :
    ∃ s₀, looksAt beyond buf s least text
        = (decide (least ≤ buf.length - s.i ∧ text <+: buf.drop s.i), s₀) ∧
      s₀.i = s.i ∧ elements s₀.events = elements s.events := by
  unfold looksAt
  split
  · next hle =>
    refine ⟨s.read s.i text.length, Prod.ext (decide_eq_decide.mpr ?_) rfl, rfl,
      elements_read _ _ _⟩
    by_cases hi : s.i ≤ buf.length
    · rw [readBytes_inside beyond (by omega), List.prefix_iff_eq_take, and_iff_right hle, eq_comm]
    · have hnil : text = [] := List.length_eq_zero_iff.mp (by omega)
      subst hnil
      exact iff_of_true rfl ⟨hle, List.nil_prefix⟩
  · next hlt =>
    refine ⟨s, Prod.ext (decide_eq_false fun h => hlt h.1).symm rfl, rfl, rfl⟩

theorem looksAt_false (beyond : Nat → UInt8) (s : PdpState σ) (h : ¬text <+: buf.drop s.i) :
    ∃ s₀, looksAt beyond buf s text.length text = (false, s₀) ∧ s₀.i = s.i ∧
      elements s₀.events = elements s.events := by
  obtain ⟨s₀, hlook, hs₀⟩ := looksAt_spec beyond buf text s le_rfl
  rw [decide_eq_false fun hand => h hand.2] at hlook
  exact ⟨s₀, hlook, hs₀⟩

theorem getNameEnd_eq {start : Nat} (hrest : buf.drop start = v ++ 34 :: rest) (hv : 34 ∉ v) :
    getNameEnd buf start = start + v.length := by
  have hnone : v.findIdx? (· == 34) = none := by
    rw [List.findIdx?_eq_none_iff]
    intro x hx
    exact beq_eq_false_iff_ne.mpr fun he => hv (he ▸ hx)
  have hfind : (v ++ 34 :: rest).findIdx? (· == 34) = some v.length := by
    rw [List.findIdx?_append, hnone]
    simp [List.findIdx?_cons]
  unfold getNameEnd
  rw [hrest, hfind]

theorem getNameEnd_none {start : Nat} (h : 34 ∉ buf.drop start) : getNameEnd buf start = -1 := by
  have hnone : (buf.drop start).findIdx? (· == 34) = none := by
    rw [List.findIdx?_eq_none_iff]
    intro x hx
    exact beq_eq_false_iff_ne.mpr fun he => h (he ▸ hx)
  unfold getNameEnd
  rw [hnone]

end

/-! ## 種類ごとの一回り -/

section

variable {σ : Type*} {beyond : Nat → UInt8} {buf rest line v w : List UInt8}
  {cb : PostDataParserAppCb σ} {s s' : PdpState σ} {e : PostEt} {k n : Nat}
  (hcb : ∀ a e b, (cb a e b).1 = 0) (hi : s.i ≤ buf.length)

include hcb hi

theorem consumeText_took (beyond : Nat → UInt8) (e : PostEt) (text : List UInt8) (s₀ : PdpState σ)
    (hs₀ : s₀.i = s.i) (hel : elements s₀.events = elements s.events)
    (hrest : buf.drop s.i = text ++ rest) :
    ∃ s', consumeItem beyond buf cb s₀ e text.length = (.next, s') ∧
      Consumed s s' e text.length [⟨e, text⟩] := by
  obtain ⟨s', hs', htook⟩ := consumeItem_took hcb beyond s₀ e rfl (by rw [hs₀]; exact hrest)
    (by rw [hs₀]; exact hi)
  exact ⟨s', hs', htook.last, by rw [htook.i, hs₀], by rw [htook.elements, hel]⟩

theorem pdpTurn_formData (hlast : s.lastItemType = .boundary)
    (hrest : buf.drop s.i = contentDfd ++ rest) (boundary : List UInt8) :
    ∃ s', pdpTurn beyond buf cb boundary s = (.next, s') ∧
      Consumed s s' .contentFormData contentDfd.length [⟨.contentFormData, contentDfd⟩] := by
  unfold pdpTurn
  rw [hlast]
  dsimp only
  rw [looksAt_true hrest hi (Nat.le_add_right _ _)]
  exact consumeText_took hcb hi _ _ contentDfd (s.read s.i contentDfd.length) rfl
    (elements_read _ _ _) hrest

theorem quoted_took {text : List UInt8} (htext : text ≠ []) (s₀ : PdpState σ) (hs₀ : s₀.i = s.i)
    (hel : elements s₀.events = elements s.events) (hv : 34 ∉ v)
    (hrest : buf.drop s.i = text ++ (v ++ [34]) ++ rest) :
    ∃ s', (if getNameEnd buf (s₀.i + text.length) ≤ 0 then (.exx, s₀)
        else consumeItem2 beyond buf cb s₀ e (getNameEnd buf (s₀.i + text.length) - s₀.i + 1)
          (s₀.i + text.length) (getNameEnd buf (s₀.i + text.length) - s₀.i - text.length))
        = (.next, s') ∧
      Consumed s s' e (text ++ (v ++ [34])).length [⟨e, v⟩] := by
  rw [List.append_assoc, List.append_assoc, List.singleton_append] at hrest
  have hvalue := drop_add_of_drop hrest
  have hlen := congrArg List.length hrest
  rw [List.length_drop, List.length_append] at hlen
  have hpos : 0 < text.length := List.length_pos_iff.mpr htext
  have hlong : (text ++ (v ++ [34])).length = text.length + v.length + 1 := by
    rw [List.length_append, List.length_append, List.length_singleton, Nat.add_assoc]
  rw [hs₀, getNameEnd_eq hvalue hv, if_neg (by omega)]
  obtain ⟨s', hs', htook⟩ := consumeItem2_took hcb beyond buf s₀ e (s.i + text.length)
    (show (s.i + text.length : Nat) + (v.length : Int) - s.i + 1 = (text ++ (v ++ [34])).length by
      rw [hlong]
      omega)
    (show (s.i + text.length : Nat) + (v.length : Int) - s.i - text.length = v.length by omega)
  rw [readBytes_text beyond hvalue (by omega)] at htook
  exact ⟨s', hs', htook.last, by rw [htook.i, hs₀], by rw [htook.elements, hel]⟩

theorem pdpTurn_name (hlast : s.lastItemType = .contentFormData) (hv : 34 ∉ v)
    (hrest : buf.drop s.i = nameS ++ (v ++ [34]) ++ rest) (boundary : List UInt8) :
    ∃ s', pdpTurn beyond buf cb boundary s = (.next, s') ∧
      Consumed s s' .name (nameS ++ (v ++ [34])).length [⟨.name, v⟩] := by
  have hlook := hrest
  rw [List.append_assoc] at hlook
  unfold pdpTurn
  rw [hlast]
  dsimp only
  rw [looksAt_true hlook hi (Nat.le_add_right _ _)]
  exact quoted_took hcb hi (List.cons_ne_nil _ _) (s.read s.i nameS.length) rfl
    (elements_read _ _ _)
    hv hrest

theorem pdpTurn_filename (hlast : s.lastItemType = .name) (hv : 34 ∉ v)
    (hrest : buf.drop s.i = fnameS ++ (v ++ [34]) ++ rest) (boundary : List UInt8) :
    ∃ s', pdpTurn beyond buf cb boundary s = (.next, s') ∧
      Consumed s s' .filename (fnameS ++ (v ++ [34])).length [⟨.filename, v⟩] := by
  have hlook := hrest
  rw [List.append_assoc] at hlook
  unfold pdpTurn
  rw [hlast]
  dsimp only
  rw [looksAt_true hlook hi (Nat.le_add_right _ _)]
  exact quoted_took hcb hi (List.cons_ne_nil _ _) (s.read s.i fnameS.length) rfl
    (elements_read _ _ _)
    hv hrest

theorem pdpTurn_emptyName (hlast : s.lastItemType = .name)
    (hrest : buf.drop s.i = emptyLine ++ rest) (boundary : List UInt8) :
    ∃ s', pdpTurn beyond buf cb boundary s = (.next, s') ∧
      Consumed s s' .emptyLine emptyLine.length [⟨.emptyLine, emptyLine⟩] := by
  have hno : ¬fnameS <+: buf.drop s.i := by
    rw [hrest]
    intro h
    exact absurd (List.cons_prefix_cons.mp h).1 (by decide)
  obtain ⟨s₀, hlook, hs₀, hel⟩ := looksAt_false beyond s hno
  unfold pdpTurn
  rw [hlast]
  dsimp only
  rw [hlook]
  dsimp only
  rw [looksAt_true (s := s₀) (by rw [hs₀]; exact hrest) (by rw [hs₀]; exact hi)
    (Nat.le_add_right _ _)]
  exact consumeText_took hcb hi _ _ emptyLine (s₀.read s₀.i emptyLine.length) hs₀
    (by rw [elements_read, hel]) hrest

theorem pdpTurn_emptyType (hlast : s.lastItemType = .contentType)
    (hrest : buf.drop s.i = emptyLine ++ rest) (boundary : List UInt8) :
    ∃ s', pdpTurn beyond buf cb boundary s = (.next, s') ∧
      Consumed s s' .emptyLine emptyLine.length [⟨.emptyLine, emptyLine⟩] := by
  unfold pdpTurn
  rw [hlast]
  dsimp only
  rw [looksAt_true hrest hi (Nat.le_add_right _ _)]
  exact consumeText_took hcb hi _ _ emptyLine (s.read s.i emptyLine.length) rfl
    (elements_read _ _ _) hrest

theorem pdpTurn_contentType (hlast : s.lastItemType = .filename) (hne : v ≠ [])
    (hv : findInfix crlf ((v ++ crlf).drop 1) = some (v.length - 1))
    (hrest : buf.drop s.i = contentTypePrefix ++ v ++ (crlf ++ rest)) (boundary : List UInt8) :
    ∃ s', pdpTurn beyond buf cb boundary s = (.next, s') ∧
      Consumed s s' .contentType (contentTypePrefix ++ v).length [⟨.contentType, v⟩] := by
  obtain ⟨c, v, rfl⟩ := List.exists_cons_of_ne_nil hne
  have hlook := hrest
  rw [List.append_assoc] at hlook
  have hvalue := drop_add_of_drop hlook
  have hlen := congrArg List.length hlook
  simp only [List.length_drop, List.length_append, List.length_cons] at hlen
  have hcrlf : crlf.length = 2 := rfl
  -- 型の 2 byte めから探す
  have hstart : buf.drop (s.i + (contentTypePrefix.length + 1)) = v ++ (crlf ++ rest) := by
    rw [← Nat.add_assoc, ← List.drop_drop, hvalue]
    rfl
  have hfind : memmem (readBytes beyond buf (s.i + (contentTypePrefix.length + 1))
    (buf.length - s.i)) crlf
      = some v.length := by
    rw [readBytes_across beyond (by omega) (by omega), hstart, ← List.append_assoc,
      List.append_assoc]
    exact findInfix_append hv _
  have hlong : (contentTypePrefix ++ c :: v).length
    = contentTypePrefix.length + (v.length + 1) := by
    rw [List.length_append, List.length_cons]
  unfold pdpTurn
  rw [hlast]
  dsimp only
  rw [looksAt_true hlook hi (by simp only [List.length_append, List.length_cons]; omega)]
  dsimp only [PdpState.read]
  rw [if_pos rfl, hfind]
  obtain ⟨s', hs', htook⟩ := consumeItem2_took hcb beyond buf
    ((s.read s.i contentTypePrefix.length).read (s.i + (contentTypePrefix.length + 1))
      (buf.length - s.i))
    .contentType (s.i + contentTypePrefix.length)
    (show (s.i + (contentTypePrefix.length + 1) : Nat) + (v.length : Int) - s.i
        = (contentTypePrefix ++ c :: v).length by
      rw [hlong]
      omega)
    (show (s.i + (contentTypePrefix.length + 1) : Nat) +
      (v.length : Int) - s.i - contentTypePrefix.length
        = (c :: v).length by
      rw [List.length_cons]
      omega)
  rw [readBytes_text beyond hvalue (by omega)] at htook
  exact ⟨s', hs', htook.last, htook.i, by rw [htook.elements, elements_read, elements_read]⟩

omit hi in
theorem valueBoundary_took (beyond : Nat → UInt8) (buf boundary : List UInt8) (s₀ : PdpState σ)
    (k : Nat) :
    ∃ s', andThen (consumeItem beyond buf cb s₀ .value k)
        (fun s => consumeItem beyond buf cb s .boundary (boundary.length + 1)) = (.next, s') ∧
      s'.lastItemType = .boundary ∧ s'.i = s₀.i + k + (boundary.length + 1) := by
  obtain ⟨s₁, hs₁, htook₁⟩ := consumeItem2_took hcb beyond buf s₀ .value s₀.i (rfl : (k : Int) = k)
    (rfl : (k : Int) = k)
  obtain ⟨s₂, hs₂, htook₂⟩ := consumeItem2_took hcb beyond buf s₁ .boundary s₁.i
    (show (boundary.length : Int) + 1 = (boundary.length + 1 : Nat) by omega)
    (show (boundary.length : Int) + 1 = (boundary.length + 1 : Nat) by omega)
  refine ⟨s₂, ?_, htook₂.last, by rw [htook₂.i, htook₁.i]⟩
  unfold consumeItem
  rw [hs₁]
  exact hs₂

theorem value_took (s₀ : PdpState σ) (hs₀ : s₀.i = s.i)
    (hel : elements s₀.events = elements s.events)
    {c : UInt8} (hrest : buf.drop s.i = v ++ (delimiter line ++ [c]) ++ rest) :
    ∃ s', andThen (consumeItem beyond buf cb s₀ .value v.length)
        (fun s => consumeItem beyond buf cb s .boundary ((delimiter line).length + 1))
          = (.next, s') ∧
      Consumed s s' .boundary (v ++ (delimiter line ++ [c])).length
        [⟨.value, v⟩, ⟨.boundary, delimiter line ++ [c]⟩] := by
  rw [List.append_assoc] at hrest
  obtain ⟨s₁, hs₁, htook₁⟩ := consumeText_took hcb hi beyond .value v s₀ hs₀ hel hrest
  have hdrop : buf.drop s₁.i = (delimiter line ++ [c]) ++ rest := by
    rw [htook₁.i]
    exact drop_add_of_drop hrest
  have hlen := congrArg List.length hrest
  rw [List.length_drop, List.length_append] at hlen
  have hi₁ : s₁.i ≤ buf.length := by
    rw [htook₁.i]
    omega
  obtain ⟨s₂, hs₂, htook₂⟩ := consumeText_took hcb hi₁ beyond .boundary (delimiter line ++ [c])
    s₁ rfl rfl hdrop
  have hlong : ((delimiter line).length : Int) + 1 = (delimiter line ++ [c]).length := by
    rw [List.length_append, List.length_singleton]
    omega
  rw [hs₁, andThen, hlong, hs₂]
  refine ⟨s₂, rfl, htook₂.last, ?_, ?_⟩
  · have hsplit : (v ++ (delimiter line ++ [c])).length
    = v.length + (delimiter line ++ [c]).length :=
      List.length_append
    rw [htook₂.i, htook₁.i, hsplit, Nat.add_assoc]
  · rw [htook₂.elements, htook₁.elements, List.append_assoc]
    rfl

theorem pdpTurn_value (hlast : s.lastItemType = .emptyLine) (hv : Delimited line v) {c : UInt8}
    (hrest : buf.drop s.i = v ++ (delimiter line ++ [c]) ++ rest) :
    ∃ s', pdpTurn beyond buf cb (delimiter line) s = (.next, s') ∧
      Consumed s s' .boundary (v ++ (delimiter line ++ [c])).length
        [⟨.value, v⟩, ⟨.boundary, delimiter line ++ [c]⟩] := by
  have hfind := hv.find ([c] ++ rest)
  rw [← List.append_assoc, ← List.append_assoc, List.append_assoc v, ← hrest] at hfind
  unfold pdpTurn
  rw [hlast]
  dsimp only
  rw [readBytes_rest beyond hi, hfind]
  exact value_took hcb hi (s.read s.i (buf.length - s.i)) rfl (elements_read _ _ _) hrest

theorem pdpTurn_rest (beyond : Nat → UInt8) (hlast : s.lastItemType = .value)
    (hv : Delimited line v)
    {c : UInt8} (hrest : buf.drop s.i = v ++ (delimiter line ++ [c]) ++ rest) :
    ∃ s', pdpTurn beyond buf cb (delimiter line) s = (.next, s') ∧
      Consumed s s' .boundary (v ++ (delimiter line ++ [c])).length
        (if v = [] then [⟨.boundary, delimiter line ++ [c]⟩]
          else [⟨.value, v⟩, ⟨.boundary, delimiter line ++ [c]⟩]) := by
  have hfind := hv.find ([c] ++ rest)
  rw [← List.append_assoc, ← List.append_assoc, List.append_assoc v, ← hrest] at hfind
  unfold pdpTurn
  rw [hlast]
  dsimp only
  rw [readBytes_rest beyond hi, hfind]
  cases v with
  | nil =>
    have hlong : ((delimiter line).length : Int) + 1 = (delimiter line ++ [c]).length := by
      rw [List.length_append, List.length_singleton]
      omega
    rw [List.length_nil, if_pos rfl, hlong]
    exact consumeText_took hcb hi _ _ (delimiter line ++ [c]) (s.read s.i (buf.length - s.i)) rfl
      (elements_read _ _ _) hrest
  | cons d v =>
    rw [if_neg (List.cons_ne_nil d v)]
    exact value_took hcb hi (s.read s.i (buf.length - s.i)) rfl (elements_read _ _ _) hrest

theorem pdpTurn_part (beyond : Nat → UInt8)
    (hlast : s.lastItemType = .emptyLine ∨ s.lastItemType = .value)
    {boundary : List UInt8} (hrest : memmem (buf.drop s.i) boundary = none) :
    ∃ s', pdpTurn beyond buf cb boundary s = (.ok, s') ∧
      Consumed s s' .value (buf.drop s.i).length [⟨.value, buf.drop s.i⟩] := by
  have hlen : ((buf.length : Int) - s.i) = (buf.drop s.i).length := by
    rw [List.length_drop]
    omega
  obtain ⟨s', hs', htook⟩ := consumeText_took hcb hi beyond .value
    (buf.drop s.i) (s.read s.i (buf.length - s.i)) rfl (elements_read _ _ _)
      (List.append_nil _).symm
  refine ⟨s', ?_, htook⟩
  unfold pdpTurn
  rcases hlast with hlast | hlast
  · rw [hlast]
    dsimp only
    rw [readBytes_rest beyond hi, hrest]
    dsimp only [PdpState.read] at hs' ⊢
    rw [hlen, hs']
    rfl
  · rw [hlast]
    dsimp only
    rw [readBytes_rest beyond hi, hrest]
    dsimp only [PdpState.read] at hs' ⊢
    rw [hlen, hs']
    rfl

omit hcb in
theorem pdpTurn_finish (beyond : Nat → UInt8) (cb : PostDataParserAppCb σ)
    (hlast : s.lastItemType = .boundary) (hrest : buf.drop s.i = finishMark)
    (boundary : List UInt8) :
    ∃ s', pdpTurn beyond buf cb boundary s = (.finish, s') ∧
      elements s'.events = elements s.events ++ [⟨.finish, finishMark⟩] := by
  have hno : ¬contentDfd <+: buf.drop s.i := by
    rw [hrest]
    intro h
    exact absurd (List.cons_prefix_cons.mp h).1 (by decide)
  obtain ⟨s₀, hlook, hs₀, hel⟩ := looksAt_false beyond s hno
  have hlen := congrArg List.length hrest
  rw [List.length_drop] at hlen
  have hread : readBytes beyond buf s₀.i 4 = finishMark := by
    rw [hs₀, ← hrest, ← readBytes_rest beyond hi, hlen]
    rfl
  unfold pdpTurn
  rw [hlast]
  dsimp only
  rw [hlook]
  dsimp only
  rw [if_neg (by decide), if_pos ⟨by rw [hs₀]; exact hlen, hread⟩]
  refine ⟨_, rfl, ?_⟩
  simp only [PdpState.call, elements_append, hel]
  have hfour : (4 : Int).toNat = 4 := rfl
  rw [hfour, hread]
  rfl

end

end Esq
