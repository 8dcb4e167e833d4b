import Esq.Libs.UrlParameters
import Mathlib.Data.List.Forall2

/-!
# 渡す名前と値

`esq_split_parameters` が断らない URL には slot への分け方があり（`esqSplitParameters_text`）、slot が足りれば
その名前と値を渡す。値の初めの `%` は読み飛ばすので、名前と値の組を並べた URL からすべてを正しく渡すのは、値が
`%` で始まらないときに限る（`esqSplitParameters_pairs`）。
-/

namespace Esq

/-- `ptr` は NUL で終わる `text` を指し、`len` はその長さである。 -/
def HoldsText (mem : List UInt8) (ptr : Option Nat) (len : Nat) (text : List UInt8) : Prop :=
  ∃ a, ptr = some a ∧ len = text.length ∧ text ++ [0] <+: mem.drop a

/-- `p` は名前と値を渡す。空の値は NULL で、長さは 0 である。 -/
def Delivers (mem name value : List UInt8) (p : EsqUrlParameter) : Prop :=
  HoldsText mem p.name p.nameLen name ∧
    if value = [] then p.value = none ∧ p.valueLen = 0 else HoldsText mem p.value p.valueLen value

/-! ## 名前と値の組 -/

/-- 名前は `[0-9A-Za-z]+`、値は `[0-9A-Za-z%]*` である。 -/
structure UrlPair where
  name : List UInt8
  value : List UInt8
  name_ne : name ≠ []
  name_alnum : ∀ c ∈ name, IsAlnum c
  value_chars : ∀ c ∈ value, IsAlnum c ∨ c = 37

def renderPairs (ps : List UrlPair) : List UInt8 :=
  ps.flatMap fun p => 63 :: (p.name ++ 61 :: p.value)

/-- `param_max` までの組は、その数を返し、名前と値を順に渡す。越えれば -1 を返す。 -/
def DeliversAll (ps : List UrlPair) (paramMax : Nat)
    (r : Int × List UInt8 × List EsqUrlParameter) : Prop :=
  (ps.length ≤ paramMax → r.1 = ps.length ∧
      List.Forall₂ (fun p q => Delivers r.2.1 p.name p.value q) ps (r.2.2.take ps.length)) ∧
    (paramMax < ps.length → r.1 = -1)

section

variable {c term last : UInt8} {i n : Nat} {st st' : Spliter} {w t pre m rest mem : List UInt8}
  {s : UrlSlot} {ss : List UrlSlot} {p : EsqUrlParameter} {used free : List EsqUrlParameter}

/-! ## 断らなければ、受ける URL である -/

inductive SplitMoves : SpliterState → UInt8 → SpliterState → Prop where
  | start : SplitMoves .s 63 .aq
  | mark {c : UInt8} (hc : c = 61 ∨ c = 63) : SplitMoves .aq c .aq
  | nameStart {c : UInt8} (hc : IsAlnum c) : SplitMoves .aq c .name
  | name {c : UInt8} (hc : IsAlnum c) : SplitMoves .name c .name
  | equal : SplitMoves .name 61 .ae
  | percent : SplitMoves .ae 37 .ae
  | valueStart {c : UInt8} (hc : IsAlnum c) : SplitMoves .ae c .value
  | empty : SplitMoves .ae 63 .aq
  | value {c : UInt8} (hc : IsValueChar c) : SplitMoves .value c .value
  | close : SplitMoves .value 63 .aq

theorem splitStep_moves (h : splitStep c i st = .ok st') :
    SplitMoves st.s c st'.s ∧ st'.url.drop (i + 1) = st.url.drop (i + 1) := by
  have hset : ∀ url : List UInt8, (url.set i 0).drop (i + 1) = url.drop (i + 1) := fun url =>
    List.drop_set_of_lt (Nat.lt_succ_self i)
  cases hs : st.s with
  | s =>
    unfold splitStep at h
    rw [hs] at h
    dsimp only at h
    split at h
    next hc =>
      cases h
      rw [hc]
      exact ⟨.start, rfl⟩
    next => cases h
  | aq =>
    rcases charType_cases c with ⟨hc, -⟩ | rfl | rfl | rfl | h0
    · rw [splitStep_nameStart hs hc] at h
      cases h
      exact ⟨.nameStart hc, rfl⟩
    · rw [splitStep, hs] at h
      cases h
    · rw [splitStep_mark hs (.inl rfl)] at h
      cases h
      rw [hs]
      exact ⟨.mark (.inl rfl), rfl⟩
    · rw [splitStep_mark hs (.inr rfl)] at h
      cases h
      rw [hs]
      exact ⟨.mark (.inr rfl), rfl⟩
    · rw [splitStep, hs] at h
      simp only [h0] at h
      cases h
  | name =>
    rcases charType_cases c with ⟨hc, -⟩ | rfl | rfl | rfl | h0
    · rw [splitStep_name hs hc] at h
      cases h
      rw [hs]
      exact ⟨.name hc, rfl⟩
    · rw [splitStep, hs] at h
      cases h
    · rw [splitStep_equal hs] at h
      split at h
      · cases h
        exact ⟨.equal, hset _⟩
      · cases h
    · rw [splitStep, hs] at h
      cases h
    · rw [splitStep, hs] at h
      simp only [h0] at h
      cases h
  | ae =>
    rcases charType_cases c with ⟨hc, -⟩ | rfl | rfl | rfl | h0
    · rw [splitStep_valueStart hs hc] at h
      cases h
      exact ⟨.valueStart hc, rfl⟩
    · rw [splitStep_percent hs] at h
      cases h
      rw [hs]
      exact ⟨.percent, rfl⟩
    · rw [splitStep, hs] at h
      cases h
    · rw [splitStep, hs] at h
      cases h
      exact ⟨.empty, rfl⟩
    · rw [splitStep, hs] at h
      simp only [h0] at h
      cases h
  | value =>
    have hstay : IsValueChar c → SplitMoves .value c st'.s ∧
        st'.url.drop (i + 1) = st.url.drop (i + 1) := by
      intro hc
      rw [splitStep_value hs hc] at h
      cases h
      rw [hs]
      exact ⟨.value hc, rfl⟩
    rcases charType_cases c with ⟨hc, -⟩ | rfl | rfl | rfl | h0
    · exact hstay (.inl hc)
    · exact hstay (.inr (.inl rfl))
    · exact hstay (.inr (.inr rfl))
    · rw [splitStep, hs] at h
      cases h
      exact ⟨.close, hset _⟩
    · rw [splitStep, hs] at h
      simp only [h0] at h
      cases h

def AfterValue (t : List UInt8) : Prop := t = [] ∨ ∃ u ss, t = 63 :: u ∧ UrlBody u ss

def AfterEqual (t : List UInt8) : Prop := ∃ skip value u, (∀ c ∈ skip, c = 37) ∧
  (∀ c ∈ value.head?, IsAlnum c) ∧ (∀ c ∈ value, IsValueChar c) ∧ AfterValue u ∧
    t = skip ++ (value ++ u)

/-- それぞれの状態から断らずに読める残りの文字。 -/
def Readable : SpliterState → List UInt8 → Prop
  | .s, t => ∃ ss, UrlText t ss
  | .aq, t => ∃ ss, UrlBody t ss
  | .name, t => (∀ c ∈ t, IsAlnum c) ∨
    ∃ name u, (∀ c ∈ name, IsAlnum c) ∧ AfterEqual u ∧ t = name ++ 61 :: u
  | .ae, t => AfterEqual t
  | .value, t => ∃ value u, (∀ c ∈ value, IsValueChar c) ∧ AfterValue u ∧ t = value ++ u

theorem AfterValue.close (h : ∃ ss, UrlBody t ss) : AfterValue (63 :: t) := by
  obtain ⟨ss, hss⟩ := h
  exact .inr ⟨t, ss, rfl, hss⟩

theorem UrlBody.of_name {name u : List UInt8} (hne : name ≠ []) (hname : ∀ c ∈ name, IsAlnum c)
    (h : AfterEqual u) : ∃ ss, UrlBody (name ++ 61 :: u) ss := by
  obtain ⟨skip, value, u, hskip, hhead, hvalue, hu, rfl⟩ := h
  let s : UrlSlot := ⟨[], name, skip, value, List.forall_mem_nil _, hne, hname, hskip, hhead,
    hvalue⟩
  have htext : name ++ 61 :: (skip ++ (value ++ u)) = s.text ++ u := by
    unfold UrlSlot.text
    simp only [s, List.nil_append, List.append_assoc, List.cons_append]
  rw [htext]
  rcases hu with rfl | ⟨t, ss, rfl, ht⟩
  · rw [List.append_nil]
    exact ⟨[s], .last s⟩
  · exact ⟨s :: ss, .more s ht⟩

theorem UrlBody.cons_mark {c : UInt8} (hc : c = 61 ∨ c = 63) (h : UrlBody t ss) :
    ∃ ss, UrlBody (c :: t) ss := by
  have hgap : ∀ s : UrlSlot, ∀ d ∈ c :: s.gap, d = 61 ∨ d = 63 := fun s =>
    List.forall_mem_cons.mpr ⟨hc, s.gap_marks⟩
  cases h with
  | tail hmarks hname => exact ⟨[], .tail (List.forall_mem_cons.mpr ⟨hc, hmarks⟩) hname⟩
  | last s => exact ⟨_, .last { s with gap := c :: s.gap, gap_marks := hgap s }⟩
  | more s ht => exact ⟨_, .more { s with gap := c :: s.gap, gap_marks := hgap s } ht⟩

theorem readable_cons {k k' : SpliterState} {c : UInt8} (hmove : SplitMoves k c k')
    (h : Readable k' t) :
    Readable k (c :: t) := by
  cases hmove with
  | start =>
    obtain ⟨ss, hss⟩ := h
    exact ⟨ss, .body hss⟩
  | mark hc =>
    obtain ⟨ss, hss⟩ := h
    exact hss.cons_mark hc
  | nameStart hc =>
    rcases h with hname | ⟨name, u, hname, hu, rfl⟩
    · exact ⟨[], .tail (List.forall_mem_nil _) (List.forall_mem_cons.mpr ⟨hc, hname⟩)⟩
    · exact UrlBody.of_name (List.cons_ne_nil c name) (List.forall_mem_cons.mpr ⟨hc, hname⟩) hu
  | name hc =>
    rcases h with hname | ⟨name, u, hname, hu, rfl⟩
    · exact .inl (List.forall_mem_cons.mpr ⟨hc, hname⟩)
    · exact .inr ⟨c :: name, u, List.forall_mem_cons.mpr ⟨hc, hname⟩, hu, rfl⟩
  | equal => exact .inr ⟨[], t, List.forall_mem_nil _, h, rfl⟩
  | percent =>
    obtain ⟨skip, value, u, hskip, hhead, hvalue, hu, rfl⟩ := h
    exact ⟨37 :: skip, value, u, List.forall_mem_cons.mpr ⟨rfl, hskip⟩, hhead, hvalue, hu, rfl⟩
  | valueStart hc =>
    obtain ⟨value, u, hvalue, hu, rfl⟩ := h
    refine ⟨[], c :: value, u, List.forall_mem_nil _, fun d hd => ?_,
      List.forall_mem_cons.mpr ⟨.inl hc, hvalue⟩, hu, rfl⟩
    obtain rfl : c = d := Option.some.inj hd
    exact hc
  | empty =>
    refine ⟨[], [], 63 :: t, List.forall_mem_nil _, fun d hd => ?_, List.forall_mem_nil _,
      AfterValue.close h, rfl⟩
    cases hd
  | value hc =>
    obtain ⟨value, u, hvalue, hu, rfl⟩ := h
    exact ⟨c :: value, u, List.forall_mem_cons.mpr ⟨hc, hvalue⟩, hu, rfl⟩
  | close => exact ⟨[], 63 :: t, List.forall_mem_nil _, AfterValue.close h, rfl⟩

theorem readable_nil (k : SpliterState) : Readable k [] := by
  cases k with
  | s => exact ⟨[], .empty⟩
  | aq => exact ⟨[], .tail (List.forall_mem_nil _) (List.forall_mem_nil _)⟩
  | name => exact .inl (List.forall_mem_nil _)
  | ae =>
    refine ⟨[], [], [], List.forall_mem_nil _, fun d hd => ?_, List.forall_mem_nil _, .inl rfl, rfl⟩
    cases hd
  | value => exact ⟨[], [], List.forall_mem_nil _, .inl rfl, rfl⟩

theorem splitLoop_readable : ∀ {t : List UInt8} {i : Nat} {st : Spliter},
    st.url.drop i = t ++ rest → (splitLoop i st t.length).1 ≠ -1 → Readable st.s t
  | [], _, st, _, _ => readable_nil st.s
  | c :: t, i, st, hurl, h => by
    have hget : st.url.getD i 0 = c := by
      rw [List.getD_eq_getElem?_getD, ← List.head?_drop, hurl]
      rfl
    rw [List.length_cons, splitLoop, hget] at h
    cases hstep : splitStep c i st with
    | error st' =>
      rw [hstep] at h
      exact absurd rfl h
    | ok st' =>
      rw [hstep] at h
      obtain ⟨hmove, hdrop⟩ := splitStep_moves hstep
      have hurl' : st'.url.drop (i + 1) = t ++ rest := by
        rw [hdrop, ← List.drop_drop, hurl]
        rfl
      exact readable_cons hmove (splitLoop_readable hurl' h)

/-! ## `esq_split_parameters` -/

/-- **断らない URL には、slot への分け方がある。** -/
theorem esqSplitParameters_text {param : List EsqUrlParameter}
    (h : (esqSplitParameters (t ++ rest) t.length param).1 ≠ -1) : ∃ ss, UrlText t ss := by
  have hread : Readable .s t := splitLoop_readable rfl h
  exact hread

/-- **slot が足りれば、すべての slot を渡し、残りを空にする。** -/
theorem esqSplitParameters_slots {param : List EsqUrlParameter} (h : UrlText t ss)
    (hfit : ss.length ≤ param.length) (term : UInt8) (rest : List UInt8) : ∃ pre mem,
      SlotLayout ss mem ∧
      esqSplitParameters (t ++ term :: rest) t.length param = ((ss.length : Int), pre ++ mem,
        slotParams pre.length ss ++ List.replicate (param.length - ss.length) .null) := by
  cases h with
  | empty => exact ⟨[], term :: rest, .nil _, rfl⟩
  | @body t ss h =>
    have hrun : ∃ mem, SlotLayout ss mem ∧
        splitLoop ([63] : List UInt8).length ⟨.aq, 0, 0, 0, 63 :: (t ++ term :: rest), param⟩
          t.length
          = (((([] : List EsqUrlParameter).length + ss.length : Nat) : Int), [63] ++ mem,
              [] ++ (slotParams 1 ss ++ List.replicate (param.length - ss.length) .null)) :=
      splitLoop_body h rfl rfl rfl rfl hfit
    obtain ⟨mem, hmem, hrun⟩ := hrun
    refine ⟨[63], mem, hmem, ?_⟩
    rw [List.length_nil, Nat.zero_add] at hrun
    exact hrun

theorem esqSplitParameters_full {param : List EsqUrlParameter} (h : UrlText t ss)
    (hfull : param.length < ss.length) :
    (esqSplitParameters (t ++ term :: rest) t.length param).1 = -1 := by
  cases h with
  | empty => cases hfull
  | @body t ss h =>
    have hrun : (splitLoop ([63] : List UInt8).length
      ⟨.aq, 0, 0, 0, 63 :: (t ++ term :: rest), param⟩
        t.length).1 = -1 :=
      splitLoop_body_full h rfl rfl (List.nil_append param).symm rfl hfull
    exact hrun

/-! ## 渡した名前と値 -/

theorem SlotLayout.delivers (h : SlotLayout ss mem) : ∀ pre : List UInt8,
    List.Forall₂ (fun s q => Delivers (pre ++ mem) s.name s.value q) ss
      (slotParams pre.length ss) := by
  induction h with
  | nil => exact fun _ => .nil
  | @cons s last hlast ss mem _ ih =>
    intro pre
    have hdrop : ∀ a b : List UInt8, (pre ++ (a ++ b)).drop (pre.length + a.length) = b := by
      intro a b
      rw [← List.append_assoc, ← List.length_append, List.drop_left]
    refine .cons ⟨⟨_, rfl, rfl, ?_⟩, ?_⟩ ?_
    · rw [UrlSlot.block, List.append_assoc, hdrop]
      exact ⟨s.skip ++ (s.value ++ [last]) ++ mem, by simp⟩
    · unfold slotParam
      by_cases hvalue : s.value = []
      · rw [if_pos hvalue, if_pos hvalue, hvalue]
        exact ⟨rfl, rfl⟩
      · rw [if_neg hvalue, if_neg hvalue]
        refine ⟨_, rfl, rfl, ?_⟩
        have hblock : s.block last ++ mem
            = (s.gap ++ (s.name ++ 0 :: s.skip)) ++ (s.value ++ [0] ++ mem) := by
          rw [UrlSlot.block, hlast hvalue]
          simp only [List.append_assoc, List.cons_append]
        have hlen : pre.length + (s.gap.length + (s.name.length + (s.skip.length + 1)))
            = pre.length + (s.gap ++ (s.name ++ 0 :: s.skip)).length := by
          simp only [List.length_append, List.length_cons]
        rw [hblock, hlen, hdrop]
        exact List.prefix_append _ _
    · have hnext := ih (pre ++ s.block last)
      rwa [List.append_assoc, List.length_append, UrlSlot.length_block] at hnext

def UrlPair.slot (p : UrlPair) : UrlSlot where
  gap := []
  name := p.name
  skip := p.value.takeWhile (· = 37)
  value := p.value.dropWhile (· = 37)
  gap_marks := List.forall_mem_nil _
  name_ne := p.name_ne
  name_alnum := p.name_alnum
  skip_percents c hc := by simpa using List.mem_takeWhile_imp hc
  value_head c hc := by
    have hne := List.head?_dropWhile_not (fun c : UInt8 => decide (c = 37)) p.value
    rw [hc] at hne
    exact (p.value_chars c ((List.dropWhile_sublist _).mem
      (List.mem_of_mem_head? hc))).resolve_right
      (by simpa using hne)
  value_chars c hc := (p.value_chars c ((List.dropWhile_sublist _).mem hc)).imp_right .inl

theorem UrlPair.slot_text (p : UrlPair) : p.slot.text = p.name ++ 61 :: p.value := by
  unfold UrlSlot.text UrlPair.slot
  dsimp only
  rw [List.nil_append, List.takeWhile_append_dropWhile]

theorem urlBody_pairs (p : UrlPair) (ps : List UrlPair) :
    UrlBody ((p.name ++ 61 :: p.value) ++ renderPairs ps) ((p :: ps).map UrlPair.slot) := by
  induction ps generalizing p with
  | nil =>
    have hlast := UrlBody.last p.slot
    rw [UrlPair.slot_text] at hlast
    rwa [renderPairs, List.flatMap_nil, List.append_nil]
  | cons q ps ih =>
    have hmore := UrlBody.more p.slot (ih q)
    rwa [UrlPair.slot_text] at hmore

theorem urlText_renderPairs : ∀ ps : List UrlPair, UrlText (renderPairs ps) (ps.map UrlPair.slot)
  | [] => .empty
  | p :: ps => .body (urlBody_pairs p ps)

theorem UrlPair.slot_value (p : UrlPair) (h : p.value.head? ≠ some 37) :
    p.slot.value = p.value := by
  show p.value.dropWhile (· = 37) = p.value
  cases hvalue : p.value with
  | nil => rfl
  | cons c value =>
    rw [hvalue] at h
    exact List.dropWhile_cons_of_neg (by simpa using h)

theorem UrlPair.head_of_delivers {p : UrlPair} {q : EsqUrlParameter}
    (hslot : Delivers mem p.name p.slot.value q) (h : Delivers mem p.name p.value q) :
    p.value.head? ≠ some 37 := by
  have hlen : ∀ {value : List UInt8}, Delivers mem p.name value q → q.valueLen = value.length := by
    rintro value ⟨-, hv⟩
    split at hv
    next hnil =>
      rw [hv.2, hnil]
      rfl
    next =>
      obtain ⟨-, -, hlen, -⟩ := hv
      exact hlen
  have heq : (p.value.dropWhile (· = 37)).length = p.value.length :=
    (hlen hslot).symm.trans (hlen h)
  have hself := (List.dropWhile_sublist (p := fun c : UInt8 => decide (c = 37))
    (l := p.value)).eq_of_length heq
  intro hhead
  have hne := List.head?_dropWhile_not (fun c : UInt8 => decide (c = 37)) p.value
  rw [hself, hhead] at hne
  simp at hne

/--
**すべてを正しく渡すのは、組が `param_max` を越えるか、どの値も `%` で始まらないとき、そのときに限る。**
-/
theorem esqSplitParameters_pairs (ps : List UrlPair) (term : UInt8) (rest : List UInt8)
    (param : List EsqUrlParameter) :
    DeliversAll ps param.length
        (esqSplitParameters (renderPairs ps ++ term :: rest) (renderPairs ps).length param) ↔
      param.length < ps.length ∨ ∀ p ∈ ps, p.value.head? ≠ some 37 := by
  have htext := urlText_renderPairs ps
  have hslots : (ps.map UrlPair.slot).length = ps.length := List.length_map _
  rcases Nat.lt_or_ge param.length ps.length with hfull | hfit
  · refine iff_of_true ⟨fun h => absurd h (by omega), fun _ => ?_⟩ (.inl hfull)
    exact esqSplitParameters_full htext (by omega)
  · obtain ⟨pre, mem, hmem, hrun⟩ := esqSplitParameters_slots htext (hslots.le.trans hfit) term rest
    have hdelivers := hmem.delivers pre
    have htake : (slotParams pre.length (ps.map UrlPair.slot) ++ List.replicate
        (param.length - (ps.map UrlPair.slot).length) EsqUrlParameter.null).take ps.length
        = slotParams pre.length (ps.map UrlPair.slot) := by
      rw [← hslots, hdelivers.length_eq, List.take_left]
    rw [List.forall₂_map_left_iff] at hdelivers
    rw [hrun]
    constructor
    · intro h
      obtain ⟨-, hall⟩ := h.1 hfit
      rw [htake] at hall
      exact .inr ((List.forall₂_and_left _ _).mp
        (hdelivers.mp (fun p q hslot hp => ⟨UrlPair.head_of_delivers hslot hp, hp⟩) hall)).1
    · intro h
      have hhead := h.resolve_left (by omega)
      refine ⟨fun _ => ⟨by rw [hslots], ?_⟩, fun hlt => absurd hlt (by omega)⟩
      rw [htake]
      refine ((List.forall₂_and_left _ _).mpr ⟨hhead, hdelivers⟩).imp fun p q hpq => ?_
      have := hpq.2
      rwa [p.slot_value hpq.1] at this

def percentPair : UrlPair where
  name := [112]
  value := [37, 52, 49]
  name_ne := by decide
  name_alnum := List.forall_mem_singleton.mpr (by decide)
  value_chars := List.forall_mem_cons.mpr ⟨by decide,
    List.forall_mem_cons.mpr ⟨by decide, List.forall_mem_singleton.mpr (by decide)⟩⟩

/-- `?p=%41` では、値の初めの `%` を失う。 -/
theorem esqSplitParameters_percent_lost :
    ¬ ∀ (ps : List UrlPair) (term : UInt8) (rest : List UInt8) (param : List EsqUrlParameter),
      DeliversAll ps param.length
        (esqSplitParameters (renderPairs ps ++ term :: rest) (renderPairs ps).length param) := by
  intro h
  have hrun : esqSplitParameters (renderPairs [percentPair] ++ 0 :: [])
    (renderPairs [percentPair]).length
      [.null] = (1, [63, 112, 0, 37, 52, 49, 0], [⟨some 1, 1, some 4, 2⟩]) := by decide
  have hpair := (h [percentPair] 0 [] [.null]).1 le_rfl
  rw [hrun] at hpair
  obtain ⟨⟨-, -, -, hlen, -⟩, -⟩ := List.forall₂_cons.mp hpair.2
  exact absurd hlen (by decide)

end

end Esq
