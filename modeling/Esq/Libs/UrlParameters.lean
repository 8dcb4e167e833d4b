import Esq.Libs.Memory

/-!
# URL の parameter

`libs/url-parameters-spliter/url-parameters-spliter.c` の `esq_split_parameters`。`?a=xxx?b=yyy` を名前と値に
分け、区切りの所に NUL を書く。

pointer は `url_ptr` からの位置で表す。`url` は `url_ptr` から領域の終わりまでの byte であり、`param` は
`param_max` 個の slot である。
-/

namespace Esq

structure EsqUrlParameter where
  name : Option Nat
  nameLen : Nat
  value : Option Nat
  valueLen : Nat
deriving DecidableEq, Repr

def EsqUrlParameter.null : EsqUrlParameter := ⟨none, 0, none, 0⟩

def esqParamSpliterCharType (c : UInt8) : Nat :=
  if 48 ≤ c ∧ c ≤ 57 then 1
  else if 65 ≤ c ∧ c ≤ 90 then 2
  else if 97 ≤ c ∧ c ≤ 122 then 3
  else if c = 37 then 4
  else if c = 61 then 14
  else if c = 63 then 15
  else 0

inductive SpliterState where
  | s
  | aq
  | name
  | ae
  | value
deriving DecidableEq, Repr

/-- `esq_split_parameters` の変数と、書き込む領域。 -/
structure Spliter where
  s : SpliterState
  idx : Nat
  nameStart : Nat
  valueStart : Nat
  url : List UInt8
  param : List EsqUrlParameter

/-- loop の一回。`c` は `url[i]` である。-1 を返すときは `.error` である。 -/
def splitStep (c : UInt8) (i : Nat) (st : Spliter) : Except Spliter Spliter :=
  match st.s with
  | .s => if c = 63 then .ok { st with s := .aq } else .error st
  | .aq =>
    match esqParamSpliterCharType c with
    | 1 | 2 | 3 => .ok { st with s := .name, nameStart := i }
    | 15 | 14 => .ok st
    | _ => .error st
  | .name =>
    match esqParamSpliterCharType c with
    | 1 | 2 | 3 => .ok st
    | 14 =>
      if st.idx < st.param.length then
        .ok { st with
          s := .ae
          url := st.url.set i 0
          param := st.param.modify st.idx fun p =>
            { p with name := some st.nameStart, nameLen := i - st.nameStart } }
      else .error { st with s := .ae }
    | _ => .error st
  | .ae =>
    match esqParamSpliterCharType c with
    | 1 | 2 | 3 => .ok { st with s := .value, valueStart := i }
    | 4 => .ok st
    | 15 =>
      .ok { st with
        s := .aq
        idx := st.idx + 1
        param := st.param.modify st.idx fun p => { p with value := none, valueLen := 0 } }
    | _ => .error st
  | .value =>
    match esqParamSpliterCharType c with
    | 1 | 2 | 3 | 4 | 14 => .ok st
    | 15 =>
      .ok { st with
        s := .aq
        idx := st.idx + 1
        url := st.url.set i 0
        param := st.param.modify st.idx fun p =>
          { p with value := some st.valueStart, valueLen := i - st.valueStart } }
    | _ => .error st

def splitLast (i : Nat) (st : Spliter) : Spliter :=
  match st.s with
  | .value =>
    { st with
      idx := st.idx + 1
      url := st.url.set i 0
      param := st.param.modify st.idx fun p =>
        { p with value := some st.valueStart, valueLen := i - st.valueStart } }
  | .ae =>
    { st with
      idx := st.idx + 1
      param := st.param.modify st.idx fun p => { p with value := none, valueLen := 0 } }
  | _ => st

def splitReturn (st : Spliter) : Int × List UInt8 × List EsqUrlParameter :=
  (st.idx, st.url, st.param.take st.idx ++ List.replicate (st.param.length - st.idx) .null)

/-- `esq_split_parameters` の loop とその後。最後の引数は `url_len - i` である。 -/
def splitLoop (i : Nat) (st : Spliter) : Nat → Int × List UInt8 × List EsqUrlParameter
  | 0 => splitReturn (splitLast i st)
  | n + 1 =>
    match splitStep (st.url.getD i 0) i st with
    | .error st => (-1, st.url, st.param)
    | .ok st => splitLoop (i + 1) st n

def esqSplitParameters (url : List UInt8) (urlLen : Nat) (param : List EsqUrlParameter) :
    Int × List UInt8 × List EsqUrlParameter :=
  splitLoop 0 ⟨.s, 0, 0, 0, url, param⟩ urlLen

/-! ## 受ける URL -/

def IsAlnum (c : UInt8) : Prop := 48 ≤ c ∧ c ≤ 57 ∨ 65 ≤ c ∧ c ≤ 90 ∨ 97 ≤ c ∧ c ≤ 122

instance (c : UInt8) : Decidable (IsAlnum c) := inferInstanceAs (Decidable (_ ∨ _))

def IsValueChar (c : UInt8) : Prop := IsAlnum c ∨ c = 37 ∨ c = 61

instance (c : UInt8) : Decidable (IsValueChar c) := inferInstanceAs (Decidable (_ ∨ _))

/--
一つの parameter の、`?` の後の文字。名前の前の `=` と `?`、値の前の `%` は読み飛ばす。
-/
structure UrlSlot where
  gap : List UInt8
  name : List UInt8
  skip : List UInt8
  value : List UInt8
  gap_marks : ∀ c ∈ gap, c = 61 ∨ c = 63
  name_ne : name ≠ []
  name_alnum : ∀ c ∈ name, IsAlnum c
  skip_percents : ∀ c ∈ skip, c = 37
  value_head : ∀ c ∈ value.head?, IsAlnum c
  value_chars : ∀ c ∈ value, IsValueChar c

def UrlSlot.text (s : UrlSlot) : List UInt8 := s.gap ++ (s.name ++ 61 :: (s.skip ++ s.value))

/-- `?` の後の文字と、そこにある slot。終わりの `=` のない名前は捨てる。 -/
inductive UrlBody : List UInt8 → List UrlSlot → Prop where
  | tail {gap name : List UInt8} (hgap : ∀ c ∈ gap, c = 61 ∨ c = 63)
    (hname : ∀ c ∈ name, IsAlnum c) :
    UrlBody (gap ++ name) []
  | last (s : UrlSlot) : UrlBody s.text [s]
  | more (s : UrlSlot) {t : List UInt8} {ss : List UrlSlot} (h : UrlBody t ss) :
    UrlBody (s.text ++ 63 :: t) (s :: ss)

inductive UrlText : List UInt8 → List UrlSlot → Prop where
  | empty : UrlText [] []
  | body {t : List UInt8} {ss : List UrlSlot} (h : UrlBody t ss) : UrlText (63 :: t) ss

/-! ## 渡すもの -/

def slotParam (start : Nat) (s : UrlSlot) : EsqUrlParameter where
  name := some (start + s.gap.length)
  nameLen := s.name.length
  value := if s.value = [] then none else some
    (start + (s.gap.length + (s.name.length + (s.skip.length + 1))))
  valueLen := s.value.length

def slotParams (start : Nat) : List UrlSlot → List EsqUrlParameter
  | [] => []
  | s :: ss => slotParam start s :: slotParams (start + (s.text.length + 1)) ss

/-- 分けた後の slot の byte。`last` は slot の次の byte である。 -/
def UrlSlot.block (s : UrlSlot) (last : UInt8) : List UInt8 :=
  s.gap ++ (s.name ++ 0 :: (s.skip ++ (s.value ++ [last])))

/-- 分けた後の領域。空でない値の後には NUL がある。 -/
inductive SlotLayout : List UrlSlot → List UInt8 → Prop where
  | nil (mem : List UInt8) : SlotLayout [] mem
  | cons (s : UrlSlot) {last : UInt8} (hlast : s.value ≠ [] → last = 0) {ss : List UrlSlot}
    {mem : List UInt8} (h : SlotLayout ss mem) : SlotLayout (s :: ss) (s.block last ++ mem)

section

variable {c term last : UInt8} {i n : Nat} {st st' : Spliter} {w t pre m rest mem : List UInt8}
  {s : UrlSlot} {ss : List UrlSlot} {p : EsqUrlParameter} {used free : List EsqUrlParameter}

/-! ## 文字の種類 -/

theorem charType_cases (c : UInt8) :
    (IsAlnum c ∧ (esqParamSpliterCharType c = 1 ∨ esqParamSpliterCharType c = 2 ∨
      esqParamSpliterCharType c = 3)) ∨ c = 37 ∨ c = 61 ∨ c = 63 ∨
        esqParamSpliterCharType c = 0 := by
  have hall : ∀ n < 256, (IsAlnum (UInt8.ofNat n) ∧ (esqParamSpliterCharType (UInt8.ofNat n) = 1 ∨
      esqParamSpliterCharType (UInt8.ofNat n) = 2 ∨ esqParamSpliterCharType (UInt8.ofNat n) = 3)) ∨
      UInt8.ofNat n = 37 ∨ UInt8.ofNat n = 61 ∨ UInt8.ofNat n = 63 ∨
      esqParamSpliterCharType (UInt8.ofNat n) = 0 := by decide +kernel
  have := hall c.toNat c.toNat_lt
  rwa [UInt8.ofNat_toNat] at this

theorem charType_alnum (h : IsAlnum c) :
    esqParamSpliterCharType c = 1 ∨ esqParamSpliterCharType c = 2 ∨
    esqParamSpliterCharType c = 3 := by
  rcases charType_cases c with ⟨-, h1⟩ | rfl | rfl | rfl | h0
  · exact h1
  · exact absurd h (by decide)
  · exact absurd h (by decide)
  · exact absurd h (by decide)
  · unfold esqParamSpliterCharType at h0
    unfold IsAlnum at h
    split_ifs at h0 with h1 h2 h3
    exact absurd h (not_or.mpr ⟨h1, not_or.mpr ⟨h2, h3⟩⟩)

/-! ## 一文字 -/

theorem splitStep_mark (hs : st.s = .aq) (hc : c = 61 ∨ c = 63) : splitStep c i st = .ok st := by
  unfold splitStep
  rw [hs]
  rcases hc with rfl | rfl
  · rfl
  · rfl

theorem splitStep_nameStart (hs : st.s = .aq) (hc : IsAlnum c) :
    splitStep c i st = .ok { st with s := .name, nameStart := i } := by
  unfold splitStep
  rw [hs]
  rcases charType_alnum hc with h | h | h
  · simp only [h]
  · simp only [h]
  · simp only [h]

theorem splitStep_name (hs : st.s = .name) (hc : IsAlnum c) : splitStep c i st = .ok st := by
  unfold splitStep
  rw [hs]
  rcases charType_alnum hc with h | h | h
  · simp only [h]
  · simp only [h]
  · simp only [h]

theorem splitStep_equal (hs : st.s = .name) : splitStep 61 i st =
    if st.idx < st.param.length then
      .ok { st with
        s := .ae
        url := st.url.set i 0
        param := st.param.modify st.idx fun p =>
          { p with name := some st.nameStart, nameLen := i - st.nameStart } }
    else .error { st with s := .ae } := by
  unfold splitStep
  rw [hs]
  rfl

theorem splitStep_percent (hs : st.s = .ae) : splitStep 37 i st = .ok st := by
  unfold splitStep
  rw [hs]
  rfl

theorem splitStep_valueStart (hs : st.s = .ae) (hc : IsAlnum c) :
    splitStep c i st = .ok { st with s := .value, valueStart := i } := by
  unfold splitStep
  rw [hs]
  rcases charType_alnum hc with h | h | h
  · simp only [h]
  · simp only [h]
  · simp only [h]

theorem splitStep_value (hs : st.s = .value) (hc : IsValueChar c) : splitStep c i st = .ok st := by
  unfold splitStep
  rw [hs]
  rcases hc with hc | rfl | rfl
  · rcases charType_alnum hc with h | h | h
    · simp only [h]
    · simp only [h]
    · simp only [h]
  · rfl
  · rfl

theorem splitStep_close (hs : st.s = .ae ∨ st.s = .value) :
    splitStep 63 i st = .ok { splitLast i st with s := .aq } := by
  unfold splitStep splitLast
  rcases hs with hs | hs
  · rw [hs]
    rfl
  · rw [hs]
    rfl

/-! ## loop -/

theorem getD_length_append (pre m : List UInt8) (c : UInt8) :
    (pre ++ c :: m).getD pre.length 0 = c := by
  rw [List.getD_eq_getElem?_getD, List.getElem?_append_right le_rfl, Nat.sub_self]
  rfl

theorem set_length_append (pre m : List UInt8) (c d : UInt8) :
    (pre ++ c :: m).set pre.length d = pre ++ d :: m :=
  set_append pre (c :: m) 0 d

theorem splitLoop_step (hurl : st.url = pre ++ c :: m)
    (hstep : splitStep c pre.length st = .ok st') :
    splitLoop pre.length st (n + 1) = splitLoop (pre ++ [c]).length st' n := by
  rw [splitLoop, hurl, getD_length_append, hstep, List.length_append]
  rfl

theorem splitLoop_error (hurl : st.url = pre ++ c :: m)
    (hstep : splitStep c pre.length st = .error st') :
    (splitLoop pre.length st (n + 1)).1 = -1 := by
  rw [splitLoop, hurl, getD_length_append, hstep]

theorem splitLoop_stay (hurl : st.url = pre ++ (w ++ m))
    (hstay : ∀ c ∈ w, ∀ i, splitStep c i st = .ok st) :
    splitLoop pre.length st (w.length + n) = splitLoop (pre ++ w).length st n := by
  induction w generalizing pre with
  | nil => rw [List.length_nil, Nat.zero_add, List.append_nil]
  | cons c w ih =>
    rw [show (c :: w).length + n = (w.length + n) + 1 by rw [List.length_cons]; omega,
      splitLoop_step hurl (hstay c List.mem_cons_self _), ih, List.append_assoc]
    · rfl
    · rw [hurl, List.append_assoc]
      rfl
    · exact fun d hd => hstay d (List.mem_cons_of_mem c hd)

theorem modify_used (used free : List EsqUrlParameter) (p : EsqUrlParameter)
    (f : EsqUrlParameter → EsqUrlParameter) :
    (used ++ p :: free).modify used.length f = used ++ f p :: free := by
  induction used with
  | nil => rfl
  | cons q used ih => rw [List.cons_append, List.length_cons, List.modify_succ_cons, ih]; rfl

theorem splitLoop_toEqual {gap name : List UInt8} (hgap : ∀ c ∈ gap, c = 61 ∨ c = 63)
    (hname : ∀ c ∈ name, IsAlnum c) (hne : name ≠ []) (hs : st.s = .aq)
    (hurl : st.url = pre ++ (gap ++ (name ++ m))) :
    splitLoop pre.length st ((gap ++ name).length + n)
      = splitLoop (pre ++ (gap ++ name)).length
          { st with s := .name, nameStart := (pre ++ gap).length } n := by
  obtain ⟨a, name, rfl⟩ := List.exists_cons_of_ne_nil hne
  rw [List.forall_mem_cons] at hname
  have hmarks : splitLoop pre.length st (gap.length + ((name.length + n) + 1))
      = splitLoop (pre ++ gap).length st ((name.length + n) + 1) :=
    splitLoop_stay hurl fun c hc i => splitStep_mark hs (hgap c hc)
  have hstart : splitLoop (pre ++ gap).length st ((name.length + n) + 1)
      = splitLoop (pre ++ gap ++ [a]).length
          { st with s := .name, nameStart := (pre ++ gap).length } (name.length + n) :=
    splitLoop_step (m := name ++ m) (by rw [hurl]; simp) (splitStep_nameStart hs hname.1)
  have hrest : splitLoop (pre ++ gap ++ [a]).length
        { st with s := .name, nameStart := (pre ++ gap).length } (name.length + n)
      = splitLoop (pre ++ gap ++ [a] ++ name).length
          { st with s := .name, nameStart := (pre ++ gap).length } n :=
    splitLoop_stay (m := m) (by simp only [hurl]; simp)
      fun c hc i => splitStep_name rfl (hname.2 c hc)
  rw [show (gap ++ a :: name).length + n = gap.length + ((name.length + n) + 1) by
    rw [List.length_append, List.length_cons]; omega, hmarks, hstart, hrest]
  simp only [List.append_assoc, List.singleton_append]

theorem splitLoop_equal (hs : st.s = .name) (hurl : st.url = pre ++ 61 :: m)
    (hparam : st.param = used ++ p :: free) (hidx : st.idx = used.length) :
    splitLoop pre.length st (n + 1) = splitLoop (pre ++ [0]).length
      { st with
        s := .ae
        url := pre ++ 0 :: m
        param := used ++ { p with
          name := some st.nameStart
          nameLen := pre.length - st.nameStart } :: free }
      n := by
  have hlt : st.idx < st.param.length := by
    rw [hparam, hidx, List.length_append, List.length_cons]
    omega
  have hlen : (pre ++ [0]).length = (pre ++ [61]).length := by
    simp only [List.length_append, List.length_singleton]
  rw [hlen]
  refine splitLoop_step hurl ?_
  rw [splitStep_equal hs, if_pos hlt, hparam, hidx, modify_used, hurl, set_length_append]

theorem splitLoop_toEnd (hs : st.s = .ae) (hurl : st.url = pre ++ (s.skip ++ (s.value ++ m))) :
    splitLoop pre.length st ((s.skip ++ s.value).length + n)
      = splitLoop (pre ++ (s.skip ++ s.value)).length
          { st with
            s := if s.value = [] then .ae else .value
            valueStart := if s.value = [] then st.valueStart else (pre ++ s.skip).length } n := by
  have hskip : ∀ m, splitLoop pre.length st (s.skip.length + m)
      = splitLoop (pre ++ s.skip).length st m :=
    fun m => splitLoop_stay hurl fun c hc i => by
      rw [s.skip_percents c hc]
      exact splitStep_percent hs
  rw [List.length_append, Nat.add_assoc, hskip]
  have hchars := s.value_chars
  have hhead := s.value_head
  cases hvalue : s.value with
  | nil =>
    rw [if_pos rfl, if_pos rfl, List.length_nil, Nat.zero_add, List.append_nil, ← hs]
  | cons a value =>
    rw [hvalue] at hurl hchars hhead
    have hurl' : st.url = (pre ++ s.skip) ++ a :: (value ++ m) := by
      rw [hurl, List.append_assoc]
      rfl
    have hstart : splitLoop (pre ++ s.skip).length st ((value.length + n) + 1)
        = splitLoop (pre ++ s.skip ++ [a]).length
            { st with s := .value, valueStart := (pre ++ s.skip).length } (value.length + n) :=
      splitLoop_step hurl' (splitStep_valueStart hs (hhead a rfl))
    have hrest : splitLoop (pre ++ s.skip ++ [a]).length
          { st with s := .value, valueStart := (pre ++ s.skip).length } (value.length + n)
        = splitLoop (pre ++ s.skip ++ [a] ++ value).length
            { st with s := .value, valueStart := (pre ++ s.skip).length } n :=
      splitLoop_stay (m := m) (by simp only [hurl', List.append_assoc, List.singleton_append])
        fun c hc i => splitStep_value rfl (hchars c (List.mem_cons_of_mem a hc))
    rw [List.length_cons, show value.length + 1 + n = (value.length + n) + 1 by omega, hstart,
      hrest,
      if_neg (List.cons_ne_nil a value), if_neg (List.cons_ne_nil a value)]
    simp only [List.append_assoc, List.singleton_append]

def valueRead (pre : List UInt8) (s : UrlSlot) (m : List UInt8) (used : List EsqUrlParameter)
    (p : EsqUrlParameter) (free : List EsqUrlParameter) (valueStart : Nat) : Spliter where
  s := if s.value = [] then .ae else .value
  idx := used.length
  nameStart := (pre ++ s.gap).length
  valueStart := if s.value = [] then valueStart else
    (pre ++ (s.gap ++ (s.name ++ 0 :: s.skip))).length
  url := pre ++ (s.gap ++ (s.name ++ 0 :: (s.skip ++ (s.value ++ m))))
  param := used ++ { p with name := some (pre ++ s.gap).length, nameLen := s.name.length } :: free

/-- **一つの slot を読み切ると、名前を渡し、`=` を NUL にして、値の終わりに着く。** -/
theorem splitLoop_slot (hs : st.s = .aq) (hurl : st.url = pre ++ (s.text ++ m))
    (hparam : st.param = used ++ p :: free) (hidx : st.idx = used.length) :
    splitLoop pre.length st (s.text.length + n)
      = splitLoop (pre ++ (s.gap ++ (s.name ++ 0 :: (s.skip ++ s.value)))).length
          (valueRead pre s m used p free st.valueStart) n := by
  have hurl' : st.url = pre ++ (s.gap ++ (s.name ++ 61 :: (s.skip ++ (s.value ++ m)))) := by
    rw [hurl, UrlSlot.text]
    simp only [List.append_assoc, List.cons_append]
  have hlen : s.text.length + n
      = (s.gap ++ s.name).length + (((s.skip ++ s.value).length + n) + 1) := by
    simp only [UrlSlot.text, List.length_append, List.length_cons]
    omega
  have hnameLen : (pre ++ (s.gap ++ s.name)).length - (pre ++ s.gap).length = s.name.length := by
    simp only [List.length_append]
    omega
  have hequal : splitLoop (pre ++ (s.gap ++ s.name)).length
        { st with s := .name, nameStart := (pre ++ s.gap).length }
          (((s.skip ++ s.value).length + n) + 1)
      = splitLoop (pre ++ (s.gap ++ s.name) ++ [0]).length
          { st with
            s := .ae
            nameStart := (pre ++ s.gap).length
            url := (pre ++ (s.gap ++ s.name)) ++ 0 :: (s.skip ++ (s.value ++ m))
            param := used ++ { p with
              name := some (pre ++ s.gap).length
              nameLen := (pre ++ (s.gap ++ s.name)).length - (pre ++ s.gap).length } :: free }
          ((s.skip ++ s.value).length + n) :=
    splitLoop_equal rfl (by simp only [hurl', List.append_assoc]) hparam hidx
  rw [hlen, splitLoop_toEqual s.gap_marks s.name_alnum s.name_ne hs hurl', hequal, hnameLen,
    splitLoop_toEnd (s := s) (m := m) rfl (by simp only [List.append_assoc, List.singleton_append])]
  unfold valueRead
  simp only [List.append_assoc, List.cons_append, List.nil_append, hidx]

/-- 終わりの byte。空でない値の後は NUL である。 -/
def UrlSlot.ending (s : UrlSlot) (c : UInt8) : UInt8 := if s.value = [] then c else 0

theorem splitLast_valueRead (v : Nat) :
    splitLast (pre ++ (s.gap ++ (s.name ++ 0 :: (s.skip ++ s.value)))).length
        (valueRead pre s (c :: m) used p free v)
      = { valueRead pre s (c :: m) used p free v with
          idx := used.length + 1
          url := pre ++ (s.block (s.ending c) ++ m)
          param := used ++ slotParam pre.length s :: free } := by
  unfold splitLast valueRead slotParam UrlSlot.block UrlSlot.ending
  by_cases hvalue : s.value = []
  · simp only [hvalue, if_true, modify_used, List.append_assoc, List.cons_append, List.nil_append,
      List.length_append, List.length_nil]
  · have hset : (pre ++ (s.gap ++ (s.name ++ 0 :: (s.skip ++ (s.value ++ c :: m))))).set
          (pre ++ (s.gap ++ (s.name ++ 0 :: (s.skip ++ s.value)))).length 0
        = pre ++ (s.gap ++ (s.name ++ 0 :: (s.skip ++ (s.value ++ 0 :: m)))) := by
      have := set_length_append (pre ++ (s.gap ++ (s.name ++ 0 :: (s.skip ++ s.value)))) m c 0
      simpa only [List.append_assoc, List.cons_append] using this
    have hlen : (pre ++ (s.gap ++ (s.name ++ 0 :: (s.skip ++ s.value)))).length
        - (pre ++ (s.gap ++ (s.name ++ 0 :: s.skip))).length = s.value.length := by
      simp only [List.length_append, List.length_cons]
      omega
    have hstart : (pre ++ (s.gap ++ (s.name ++ 0 :: s.skip))).length
        = pre.length + (s.gap.length + (s.name.length + (s.skip.length + 1))) := by
      simp only [List.length_append, List.length_cons]
    simp only [hvalue, if_false, modify_used, hset, hlen]
    simp only [hstart, List.append_assoc, List.cons_append, List.nil_append, List.length_append]

/-! ## 全体 -/

theorem splitLoop_more (hs : st.s = .aq) (hurl : st.url = pre ++ (s.text ++ 63 :: m))
    (hparam : st.param = used ++ p :: free) (hidx : st.idx = used.length) : ∃ st' : Spliter,
    splitLoop pre.length st ((s.text ++ 63 :: t).length)
        = splitLoop (pre ++ s.block (s.ending 63)).length st' t.length ∧
      st'.s = .aq ∧ st'.url = (pre ++ s.block (s.ending 63)) ++ m ∧
      st'.param = (used ++ [slotParam pre.length s]) ++ free ∧
      st'.idx = (used ++ [slotParam pre.length s]).length := by
  have hend : (valueRead pre s (63 :: m) used p free st.valueStart).s = .ae ∨
      (valueRead pre s (63 :: m) used p free st.valueStart).s = .value := by
    unfold valueRead
    dsimp only
    split
    · exact .inl rfl
    · exact .inr rfl
  have hurl' : (valueRead pre s (63 :: m) used p free st.valueStart).url
      = (pre ++ (s.gap ++ (s.name ++ 0 :: (s.skip ++ s.value)))) ++ 63 :: m := by
    unfold valueRead
    simp only [List.append_assoc, List.cons_append]
  have hlen : (s.text ++ 63 :: t).length = s.text.length + (t.length + 1) := List.length_append
  have hblock : ((pre ++ (s.gap ++ (s.name ++ 0 :: (s.skip ++ s.value)))) ++ [63]).length
      = (pre ++ s.block (s.ending 63)).length := by
    unfold UrlSlot.block
    simp only [List.length_append, List.length_cons, List.length_nil, Nat.add_assoc]
  rw [hlen, splitLoop_slot hs hurl hparam hidx, splitLoop_step hurl' (splitStep_close hend),
    splitLast_valueRead,
    hblock]
  refine ⟨_, rfl, rfl, (List.append_assoc _ _ _).symm, List.append_cons _ _ _, ?_⟩
  rw [List.length_append]
  rfl

theorem splitLoop_last (hs : st.s = .aq) (hurl : st.url = pre ++ (s.text ++ c :: m))
    (hparam : st.param = used ++ p :: free) (hidx : st.idx = used.length) :
    splitLoop pre.length st s.text.length = (((used.length + 1 : Nat) : Int),
      pre ++ (s.block (s.ending c) ++ m),
      used ++ (slotParam pre.length s :: List.replicate free.length .null)) := by
  have hslot := splitLoop_slot (n := 0) hs hurl hparam hidx
  rw [Nat.add_zero] at hslot
  rw [hslot, splitLoop, splitLast_valueRead]
  have htake : (used ++ slotParam pre.length s :: free).take (used.length + 1)
      = used ++ [slotParam pre.length s] := by
    rw [List.take_length_add_append]
    rfl
  unfold splitReturn
  dsimp only
  rw [htake, List.length_append, List.length_cons, Nat.add_sub_add_left, Nat.add_sub_cancel,
    List.append_assoc, List.singleton_append]

theorem splitLoop_tail {gap name : List UInt8} (hgap : ∀ c ∈ gap, c = 61 ∨ c = 63)
    (hname : ∀ c ∈ name, IsAlnum c) (hs : st.s = .aq)
    (hurl : st.url = pre ++ (gap ++ (name ++ m))) :
    splitLoop pre.length st (gap ++ name).length = splitReturn st := by
  cases name with
  | nil =>
    have hstay := splitLoop_stay (n := 0) hurl fun c hc i => splitStep_mark hs (hgap c hc)
    rw [List.append_nil, ← Nat.add_zero gap.length, hstay, splitLoop, splitLast, hs]
  | cons a name =>
    have hread := splitLoop_toEqual (n := 0) hgap hname (List.cons_ne_nil a name) hs hurl
    rw [← Nat.add_zero (gap ++ a :: name).length, hread]
    rfl

theorem UrlSlot.length_block (s : UrlSlot) (c : UInt8) :
    (s.block c).length = s.text.length + 1 := by
  unfold UrlSlot.block UrlSlot.text
  simp only [List.length_append, List.length_cons, List.length_nil, Nat.add_assoc]

theorem UrlSlot.ending_eq (hvalue : s.value ≠ []) (c : UInt8) : s.ending c = 0 := if_neg hvalue

/-- **受ける URL は、すべての slot を渡し、残りを空にする。** -/
theorem splitLoop_body (h : UrlBody t ss) : ∀ {pre : List UInt8} {used free : List EsqUrlParameter}
    {st : Spliter}, st.s = .aq → st.url = pre ++ (t ++ term :: rest) → st.param = used ++ free →
    st.idx = used.length → ss.length ≤ free.length → ∃ mem, SlotLayout ss mem ∧
      splitLoop pre.length st t.length = (((used.length + ss.length : Nat) : Int), pre ++ mem,
        used ++ (slotParams pre.length ss ++ List.replicate (free.length - ss.length) .null)) := by
  induction h with
  | @tail gap name hgap hname =>
    intro pre used free st hs hurl hparam hidx _
    rw [List.append_assoc] at hurl
    refine ⟨gap ++ (name ++ term :: rest), .nil _, ?_⟩
    rw [splitLoop_tail hgap hname hs hurl, splitReturn, hidx, hurl, hparam, List.take_left,
      List.length_append, Nat.add_sub_cancel_left]
    rfl
  | last s =>
    intro pre used free st hs hurl hparam hidx hfit
    cases free with
    | nil => cases hfit
    | cons p free =>
      refine ⟨s.block (s.ending term) ++ rest, .cons s (fun hv => s.ending_eq hv _) (.nil rest), ?_⟩
      rw [splitLoop_last hs hurl hparam hidx]
      rfl
  | @more s t ss _ ih =>
    intro pre used free st hs hurl hparam hidx hfit
    cases free with
    | nil => cases hfit
    | cons p free =>
      have hurl' : st.url = pre ++ (s.text ++ 63 :: (t ++ term :: rest)) := by
        rw [hurl, List.append_assoc]
        rfl
      obtain ⟨st', hread, hs', hurl'', hparam', hidx'⟩ := splitLoop_more
        (t := t) hs hurl' hparam hidx
      obtain ⟨mem, hmem, hrest⟩ := ih hs' hurl'' hparam' hidx'
        (Nat.le_of_succ_le_succ hfit)
      refine ⟨s.block (s.ending 63) ++ mem, .cons s (fun hv => s.ending_eq hv _) hmem, ?_⟩
      rw [hread, hrest, List.length_append, List.length_append, UrlSlot.length_block,
        List.append_assoc, List.append_assoc, List.length_cons, List.length_cons,
        List.length_cons, Nat.add_sub_add_right,
        slotParams, List.length_nil, Nat.add_assoc used.length, Nat.add_comm 1 ss.length]
      rfl

theorem splitLoop_full (hs : st.s = .aq) (hurl : st.url = pre ++ (s.text ++ m))
    (hfull : ¬ st.idx < st.param.length) :
    (splitLoop pre.length st (s.text.length + n)).1 = -1 := by
  have hurl' : st.url = pre ++ (s.gap ++ (s.name ++ 61 :: (s.skip ++ (s.value ++ m)))) := by
    rw [hurl, UrlSlot.text]
    simp only [List.append_assoc, List.cons_append]
  have hlen : s.text.length + n
      = (s.gap ++ s.name).length + (((s.skip ++ s.value).length + n) + 1) := by
    simp only [UrlSlot.text, List.length_append, List.length_cons]
    omega
  rw [hlen, splitLoop_toEqual s.gap_marks s.name_alnum s.name_ne hs hurl']
  have hstep : splitStep 61 (pre ++ (s.gap ++ s.name)).length
        { st with s := .name, nameStart := (pre ++ s.gap).length }
      = .error { st with s := .ae, nameStart := (pre ++ s.gap).length } := by
    rw [splitStep_equal rfl, if_neg hfull]
  exact splitLoop_error (m := s.skip ++ (s.value ++ m))
    (by simp only [hurl', List.append_assoc]) hstep

theorem splitLoop_body_full (h : UrlBody t ss) : ∀ {pre : List UInt8}
    {used free : List EsqUrlParameter}
    {st : Spliter}, st.s = .aq → st.url = pre ++ (t ++ term :: rest) → st.param = used ++ free →
    st.idx = used.length → free.length < ss.length → (splitLoop pre.length st t.length).1 = -1 := by
  have hfull : ∀ {used : List EsqUrlParameter} {st : Spliter}, st.param = used ++ [] →
      st.idx = used.length → ¬ st.idx < st.param.length := by
    intro used st hparam hidx
    rw [hparam, hidx, List.append_nil]
    exact lt_irrefl _
  induction h with
  | tail _ _ =>
    intro pre used free st _ _ _ _ hlt
    cases hlt
  | last s =>
    intro pre used free st hs hurl hparam hidx hlt
    cases free with
    | nil => exact splitLoop_full (n := 0) hs hurl (hfull hparam hidx)
    | cons p free => exact absurd (Nat.lt_of_succ_lt_succ hlt) (Nat.not_lt_zero _)
  | @more s t ss _ ih =>
    intro pre used free st hs hurl hparam hidx hlt
    have hurl' : st.url = pre ++ (s.text ++ 63 :: (t ++ term :: rest)) := by
      rw [hurl, List.append_assoc]
      rfl
    cases free with
    | nil =>
      rw [List.length_append]
      exact splitLoop_full hs hurl' (hfull hparam hidx)
    | cons p free =>
      obtain ⟨st', hread, hs', hurl'', hparam', hidx'⟩ := splitLoop_more
        (t := t) hs hurl' hparam hidx
      rw [hread]
      exact ih hs' hurl'' hparam' hidx' (Nat.lt_of_succ_lt_succ hlt)

end

end Esq
