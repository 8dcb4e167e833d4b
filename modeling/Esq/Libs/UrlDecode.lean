import Esq.Libs.EscapePercent
import Esq.Libs.UrlPairs

/-!
# 名前と値の decode

`libs/url-parameters-spliter/url-parameters-spliter.c` の `esq_url_parames_escape_in_place`。`esq_split_parameters` の
渡した名前と値を、その場で decode する。

NULL の名前と値にも NUL を書くので、使わない slot か空の値に着くと領域の外に書く。着く前に断れば、書かない
（`esqUrlParamesEscapeInPlace_iff`）。
-/

namespace Esq

open Infra

/-- `escape_percent_in_place(ptr, len)`。NULL から読むとき `none` である。 -/
def escapePercentAt (mem : List UInt8) (ptr : Option Nat) (len : Nat) : Option (Int × List UInt8) :=
  match ptr with
  | none => if len = 0 then some (0, mem) else none
  | some a =>
    let (r, buf) := escapePercentInPlace (mem.drop a) len
    some (r, mem.take a ++ buf)

/--
一つの名前か値を decode し、終わりに NUL を書く。断るとき長さは無く、NULL に書くとき `none` である。
-/
def escapeField (mem : List UInt8) (ptr : Option Nat) (len : Nat) :
    Option (Option Nat × List UInt8) :=
  match escapePercentAt mem ptr len with
  | none => none
  | some (r, mem) =>
    if r < 0 then some (none, mem)
    else
      match ptr with
      | none => none
      | some a => some (some r.toNat, mem.set (a + r.toNat) 0)

/-- `esq_url_parames_escape_in_place` の loop。最後の引数は `param_max - i` である。 -/
def escapeParamsLoop (mem : List UInt8) (param : List EsqUrlParameter) (i : Nat) :
    Nat → Option (Int × List UInt8 × List EsqUrlParameter)
  | 0 => some (0, mem, param)
  | n + 1 =>
    let p := param.getD i .null
    match escapeField mem p.name p.nameLen with
    | none => none
    | some (none, mem) => some (-1, mem, param)
    | some (some r, mem) =>
      let param := param.modify i fun p => { p with nameLen := r }
      match escapeField mem p.value p.valueLen with
      | none => none
      | some (none, mem) => some (-1, mem, param)
      | some (some r, mem) =>
        escapeParamsLoop mem (param.modify i fun p => { p with valueLen := r }) (i + 1) n

/-- `esq_url_parames_escape_in_place`。`param_max` は `param` の長さであり、NULL に書くとき `none` である。 -/
def esqUrlParamesEscapeInPlace (mem : List UInt8) (param : List EsqUrlParameter) :
    Option (Int × List UInt8 × List EsqUrlParameter) :=
  escapeParamsLoop mem param 0 param.length

/-! ## 渡した値 -/

def EsqUrlParameter.valueText (mem : List UInt8) (p : EsqUrlParameter) : List UInt8 :=
  match p.value with
  | none => []
  | some a => (mem.drop a).take p.valueLen

def EsqUrlParameter.decoded (mem : List UInt8) (p : EsqUrlParameter) : List UInt8 :=
  (unescape 37 hexPair (p.valueText mem)).getD []

/--
NULL に書かずに終わり、-1 を返すのは読めない値があるときに限り、返さなければ、それぞれの値を、NUL で終わる decode
したものとその長さに替える。
-/
def DecodesAll (mem : List UInt8) (param : List EsqUrlParameter)
    (r : Option (Int × List UInt8 × List EsqUrlParameter)) : Prop :=
  ∃ code mem' param', r = some (code, mem', param') ∧
    (code = -1 ↔ ∃ p ∈ param, unescape 37 hexPair (p.valueText mem) = none) ∧
    (code ≠ -1 → param' = param.map (fun p => { p with valueLen := (p.decoded mem).length }) ∧
      ∀ p ∈ param, HoldsText mem' p.value (p.decoded mem).length (p.decoded mem))

/-- 使わない slot と空の値に着かないか、着く前に読めない値がある。 -/
def DecodesSlots (ss : List UrlSlot) (paramMax : Nat) : Prop :=
  (ss.length = paramMax ∧ ∀ s ∈ ss, s.value ≠ []) ∨
    ∃ pre s post, ss = pre ++ s :: post ∧ (∀ q ∈ pre, q.value ≠ []) ∧
      unescape 37 hexPair s.value = none

section

variable {mem orig x y f v : List UInt8} {ptr : Option Nat} {len k n : Nat} {z : UInt8}
  {s : UrlSlot} {ss : List UrlSlot} {used free : List EsqUrlParameter} {p q : EsqUrlParameter}

/-! ## 一つの名前か値 -/

theorem escapeField_text (h : Escaped 37 hexPair v f) : ∃ junk, junk.length + v.length = f.length ∧
    escapeField (x ++ (f ++ z :: y)) (some x.length) f.length
      = some (some v.length, x ++ (v ++ 0 :: (junk ++ y))) := by
  have hle := h.length_le
  have hlen : ((f ++ [z]).drop v.length).length = f.length + 1 - v.length := by
    rw [List.length_drop, List.length_append, List.length_singleton]
  obtain ⟨c, junk, hjunk⟩ := List.exists_cons_of_length_pos (l := (f ++ [z]).drop v.length)
    (by omega)
  rw [hjunk, List.length_cons] at hlen
  have hdrop : (f ++ z :: y).drop v.length = c :: (junk ++ y) := by
    rw [List.append_cons, List.drop_append_of_le_length (by
      rw [List.length_append, List.length_singleton]; omega), hjunk]
    rfl
  refine ⟨junk, by omega, ?_⟩
  unfold escapeField escapePercentAt
  dsimp only
  rw [List.drop_left, escapePercentInPlace_escaped h, List.take_left, hdrop]
  dsimp only
  rw [if_neg (by omega), Int.toNat_natCast, set_append, set_length_append]

theorem escapeField_bad (h : unescape 37 hexPair f = none) :
    ∃ mem', escapeField (x ++ (f ++ y)) (some x.length) f.length = some (none, mem') := by
  have hneg := escapePercentInPlace_unescape_none h y
  unfold escapeField escapePercentAt
  dsimp only
  rw [List.drop_left, hneg, if_pos (by decide)]
  exact ⟨_, rfl⟩

theorem UrlSlot.escaped_name (s : UrlSlot) : Escaped 37 hexPair s.name s.name :=
  escaped_self fun h => absurd (s.name_alnum 37 h) (by decide)

/-! ## 一つの slot -/

theorem getD_used (used free : List EsqUrlParameter) (p q : EsqUrlParameter) :
    (used ++ p :: free).getD used.length q = p := by
  rw [List.getD_eq_getElem?_getD, List.getElem?_append_right le_rfl, Nat.sub_self]
  rfl

theorem escapeParamsLoop_null :
    escapeParamsLoop mem (used ++ .null :: free) used.length (n + 1) = none := by
  unfold escapeParamsLoop
  dsimp only
  rw [getD_used]
  rfl

theorem escapeParamsLoop_name (last : UInt8) :
    escapeParamsLoop (x ++ (s.block last ++ y)) (used ++ slotParam x.length s :: free) used.length
      (n + 1)
      = match escapeField (x ++ (s.block last ++ y))
        (slotParam x.length s).value s.value.length with
        | none => none
        | some (none, mem) => some (-1, mem, used ++ slotParam x.length s :: free)
        | some (some r, mem) => escapeParamsLoop mem
            (used ++ { slotParam x.length s with valueLen := r } :: free) (used.length + 1) n := by
  have hname : escapeField (x ++ (s.block last ++ y)) (slotParam x.length s).name s.name.length
      = some (some s.name.length, x ++ (s.block last ++ y)) := by
    obtain ⟨junk, hjunk, hfield⟩ := escapeField_text (x := x ++ s.gap) (z := 0)
      (y := s.skip ++ (s.value ++ [last]) ++ y) s.escaped_name
    obtain rfl : junk = [] := List.eq_nil_of_length_eq_zero (by omega)
    have hmem : x ++ (s.block last ++ y)
        = (x ++ s.gap) ++ (s.name ++ 0 :: (s.skip ++ (s.value ++ [last]) ++ y)) := by
      unfold UrlSlot.block
      simp only [List.append_assoc, List.cons_append]
    rw [hmem]
    rw [List.length_append] at hfield
    exact hfield
  have hmodify : (used ++ slotParam x.length s :: free).modify used.length
      (fun p => { p with nameLen := s.name.length }) = used ++ slotParam x.length s :: free :=
    modify_used used free _ _
  rw [escapeParamsLoop]
  dsimp only
  rw [getD_used]
  dsimp only [slotParam] at hname hmodify ⊢
  rw [hname]
  dsimp only
  rw [hmodify]
  simp only [modify_used]

def UrlSlot.beforeValue (s : UrlSlot) : List UInt8 := s.gap ++ (s.name ++ 0 :: s.skip)

theorem UrlSlot.block_eq (s : UrlSlot) (last : UInt8) :
    s.block last = s.beforeValue ++ (s.value ++ [last]) := by
  unfold UrlSlot.block UrlSlot.beforeValue
  simp only [List.append_assoc, List.cons_append]

theorem slotParam_value (start : Nat) (hvalue : s.value ≠ []) :
    (slotParam start s).value = some (start + s.beforeValue.length) := by
  unfold slotParam UrlSlot.beforeValue
  dsimp only
  rw [if_neg hvalue]
  simp only [List.length_append, List.length_cons]

theorem escapeParamsLoop_empty (hvalue : s.value = []) (last : UInt8) :
    escapeParamsLoop (x ++ (s.block last ++ y)) (used ++ slotParam x.length s :: free) used.length
      (n + 1)
      = none := by
  have hnull : (slotParam x.length s).value = none := if_pos hvalue
  rw [escapeParamsLoop_name, hnull, hvalue]
  rfl

theorem escapeParamsLoop_bad (h : unescape 37 hexPair s.value = none)
    (last : UInt8) : ∃ mem' param',
    escapeParamsLoop (x ++ (s.block last ++ y)) (used ++ slotParam x.length s :: free) used.length
      (n + 1)
      = some (-1, mem', param') := by
  have hvalue : s.value ≠ [] := fun he => by
    rw [he] at h
    cases h
  obtain ⟨mem', hfield⟩ := escapeField_bad (x := x ++ s.beforeValue) (y := [last] ++ y) h
  have hmem : x ++ (s.block last ++ y) = (x ++ s.beforeValue) ++ (s.value ++ ([last] ++ y)) := by
    rw [UrlSlot.block_eq]
    simp only [List.append_assoc]
  rw [← hmem, List.length_append] at hfield
  rw [escapeParamsLoop_name, slotParam_value _ hvalue, hfield]
  exact ⟨_, _, rfl⟩

theorem escapeParamsLoop_value (hvalue : s.value ≠ []) (h : Escaped 37 hexPair v s.value)
    (last : UInt8)
    (used free : List EsqUrlParameter) : ∃ junk, junk.length + v.length = s.value.length ∧
      escapeParamsLoop (x ++ (s.block last ++ y))
        (used ++ slotParam x.length s :: free) used.length (n + 1)
        = escapeParamsLoop ((x ++ (s.beforeValue ++ (v ++ 0 :: junk))) ++ y)
            (used ++ { slotParam x.length s with valueLen := v.length } :: free)
              (used.length + 1) n := by
  obtain ⟨junk, hjunk, hfield⟩ := escapeField_text (x := x ++ s.beforeValue) (z := last) (y := y) h
  have hmem : x ++ (s.block last ++ y) = (x ++ s.beforeValue) ++ (s.value ++ last :: y) := by
    rw [UrlSlot.block_eq]
    simp only [List.append_assoc, List.singleton_append]
  rw [← hmem, List.length_append] at hfield
  refine ⟨junk, hjunk, ?_⟩
  rw [escapeParamsLoop_name, slotParam_value _ hvalue, hfield]
  simp only [List.append_assoc, List.cons_append]

/-! ## 並んだ slot -/

def BadFirst (ss : List UrlSlot) : Prop := ∃ pre s post, ss = pre ++ s :: post ∧
  (∀ q ∈ pre, q.value ≠ []) ∧ unescape 37 hexPair s.value = none

theorem badFirst_cons (hvalue : s.value ≠ []) (h : unescape 37 hexPair s.value ≠ none) :
    BadFirst (s :: ss) ↔ BadFirst ss := by
  constructor
  · rintro ⟨pre, q, post, heq, hpre, hbad⟩
    cases pre with
    | nil =>
      obtain ⟨rfl, -⟩ := List.cons_eq_cons.mp heq
      exact absurd hbad h
    | cons r pre =>
      obtain ⟨-, rfl⟩ := List.cons_eq_cons.mp heq
      exact ⟨pre, q, post, rfl, fun u hu => hpre u (List.mem_cons_of_mem r hu), hbad⟩
  · rintro ⟨pre, q, post, rfl, hpre, hbad⟩
    exact ⟨s :: pre, q, post, rfl, List.forall_mem_cons.mpr ⟨hvalue, hpre⟩, hbad⟩

theorem not_badFirst_of_empty (hvalue : s.value = []) : ¬ BadFirst (s :: ss) := by
  rintro ⟨pre, q, post, heq, hpre, hbad⟩
  cases pre with
  | nil =>
    obtain ⟨rfl, -⟩ := List.cons_eq_cons.mp heq
    rw [hvalue] at hbad
    cases hbad
  | cons r pre =>
    obtain ⟨rfl, -⟩ := List.cons_eq_cons.mp heq
    exact hpre s List.mem_cons_self hvalue

theorem length_decodedBlock {junk : List UInt8} (h : junk.length + v.length = s.value.length)
    (x : List UInt8) :
    (x ++ (s.beforeValue ++ (v ++ 0 :: junk))).length = x.length + (s.text.length + 1) := by
  unfold UrlSlot.beforeValue UrlSlot.text
  simp only [List.length_append, List.length_cons]
  omega

theorem escapeParamsLoop_cons (hvalue : s.value ≠ []) (h : unescape 37 hexPair s.value = some v)
    (last : UInt8) (x y : List UInt8) (used free : List EsqUrlParameter) (ss : List UrlSlot)
    (n : Nat) :
    ∃ x' : List UInt8, x'.length = x.length + (s.text.length + 1) ∧
      (∃ junk, x' = x ++ (s.beforeValue ++ (v ++ 0 :: junk))) ∧
      escapeParamsLoop (x ++ (s.block last ++ y)) (used ++ (slotParams x.length (s :: ss) ++ free))
          used.length (n + 1)
        = escapeParamsLoop (x' ++ y)
            ((used ++ [{ slotParam x.length s with valueLen := v.length }]) ++
              (slotParams x'.length ss ++ free))
            (used ++ [{ slotParam x.length s with valueLen := v.length }]).length n := by
  obtain ⟨junk, hjunk, hloop⟩ := escapeParamsLoop_value (x := x) (y := y) (n := n) hvalue
    (unescape_eq_some_iff.mp h) last used (slotParams (x.length + (s.text.length + 1)) ss ++ free)
  refine ⟨_, length_decodedBlock hjunk x, ⟨junk, rfl⟩, ?_⟩
  rw [length_decodedBlock hjunk x, slotParams, List.cons_append, hloop]
  simp only [List.length_append, List.length_singleton, List.append_assoc, List.singleton_append]

theorem escapeParamsLoop_badFirst (h : SlotLayout ss mem) : ∀ (x : List UInt8)
    (used free : List EsqUrlParameter) {m : Nat}, BadFirst ss → ss.length ≤ m → ∃ mem' param',
      escapeParamsLoop (x ++ mem) (used ++ (slotParams x.length ss ++ free)) used.length m
        = some (-1, mem', param') := by
  induction h with
  | nil =>
    rintro x used free m ⟨pre, s, post, heq, -⟩ -
    exact absurd heq (by simp)
  | @cons s last hlast ss mem _ ih =>
    intro x used free m hbad hm
    obtain ⟨m, rfl⟩ := Nat.exists_eq_succ_of_ne_zero (Nat.ne_zero_of_lt hm)
    have hvalue : s.value ≠ [] := fun he => not_badFirst_of_empty he hbad
    cases hs : unescape 37 hexPair s.value with
    | none => exact escapeParamsLoop_bad hs last
    | some v =>
      have hrest := (badFirst_cons hvalue (by rw [hs]; exact Option.some_ne_none v)).mp hbad
      obtain ⟨x', -, -, hloop⟩ := escapeParamsLoop_cons hvalue hs last x mem used free ss m
      rw [hloop]
      exact ih x' _ free hrest (Nat.le_of_succ_le_succ hm)

theorem escapeParamsLoop_reachesNull (h : SlotLayout ss mem) : ∀ (x : List UInt8)
    (used : List EsqUrlParameter) {k : Nat}, ¬ BadFirst ss → (0 < k ∨ ∃ s ∈ ss, s.value = []) →
      escapeParamsLoop (x ++ mem) (used ++ (slotParams x.length ss ++ List.replicate k .null))
        used.length
        (ss.length + k) = none := by
  induction h with
  | nil =>
    intro x used k _ hnull
    obtain ⟨k, rfl⟩ := Nat.exists_eq_succ_of_ne_zero
      (hnull.resolve_right (fun ⟨s, hs, _⟩ => by cases hs)).ne'
    rw [List.length_nil, Nat.zero_add]
    exact escapeParamsLoop_null
  | @cons s last hlast ss mem _ ih =>
    intro x used k hbad hnull
    rw [show (s :: ss).length + k = (ss.length + k) + 1 by rw [List.length_cons]; omega]
    by_cases hvalue : s.value = []
    · exact escapeParamsLoop_empty hvalue last
    · cases hs : unescape 37 hexPair s.value with
      | none => exact absurd ⟨[], s, ss, rfl, List.forall_mem_nil _, hs⟩ hbad
      | some v =>
        have hrest := mt (badFirst_cons hvalue (by rw [hs]; exact Option.some_ne_none v)).mpr hbad
        obtain ⟨x', -, -, hloop⟩ := escapeParamsLoop_cons hvalue hs last x mem used
          (List.replicate k .null) ss (ss.length + k)
        rw [hloop]
        refine ih x' _ hrest (hnull.imp_right ?_)
        rintro ⟨q, hq, hempty⟩
        rcases List.mem_cons.mp hq with rfl | hq
        · exact absurd hempty hvalue
        · exact ⟨q, hq, hempty⟩

theorem escapeParamsLoop_all (h : SlotLayout ss mem) : ∀ (x : List UInt8)
    (used : List EsqUrlParameter),
    (∀ s ∈ ss, s.value ≠ [] ∧ unescape 37 hexPair s.value ≠ none) →
    List.Forall₂ (fun s p => p.valueText orig = s.value) ss (slotParams x.length ss) → ∃ mem',
      escapeParamsLoop (x ++ mem) (used ++ (slotParams x.length ss ++ [])) used.length ss.length
        = some (0, x ++ mem', used ++ (slotParams x.length ss).map fun p =>
            { p with valueLen := (p.decoded orig).length }) ∧
      ∀ p ∈ slotParams x.length ss,
        HoldsText (x ++ mem') p.value (p.decoded orig).length (p.decoded orig) := by
  induction h with
  | nil mem =>
    intro x used _ _
    refine ⟨mem, ?_, List.forall_mem_nil _⟩
    rw [slotParams]
    rfl
  | @cons s last hlast ss mem _ ih =>
    intro x used hall horig
    obtain ⟨⟨hvalue, hsome⟩, hrest⟩ := List.forall_mem_cons.mp hall
    obtain ⟨v, hs⟩ := Option.ne_none_iff_exists'.mp hsome
    obtain ⟨x', hlen, ⟨junk, rfl⟩, hloop⟩ := escapeParamsLoop_cons hvalue hs last x mem used
      [] ss ss.length
    obtain ⟨htext, horig⟩ := List.forall₂_cons.mp horig
    rw [← hlen] at horig
    obtain ⟨mem', hrun, hheld⟩ := ih _ _ hrest horig
    have hdecoded : (slotParam x.length s).decoded orig = v := by
      unfold EsqUrlParameter.decoded
      rw [htext, hs]
      rfl
    refine ⟨(s.beforeValue ++ (v ++ 0 :: junk)) ++ mem', ?_, ?_⟩
    · rw [List.length_cons, hloop, hrun, slotParams, List.map_cons, hdecoded, hlen]
      simp only [List.append_assoc, List.singleton_append]
    · rw [slotParams]
      rw [hlen] at hheld
      refine List.forall_mem_cons.mpr ⟨?_, ?_⟩
      · rw [hdecoded, slotParam_value _ hvalue]
        refine ⟨_, rfl, rfl, ?_⟩
        rw [← List.length_append, ← List.append_assoc, ← List.append_assoc x s.beforeValue,
          List.append_assoc (x ++ s.beforeValue), List.drop_left]
        exact ⟨junk ++ mem', by simp⟩
      · rwa [List.append_assoc x] at hheld

/-! ## 分けた後の decode -/

theorem Delivers.valueText_eq {name value : List UInt8} (h : Delivers mem name value p) :
    p.valueText mem = value := by
  obtain ⟨-, hv⟩ := h
  unfold EsqUrlParameter.valueText
  split at hv
  next hnil => rw [hv.1, hnil]
  next =>
    obtain ⟨a, hptr, hlen, ⟨rest, hrest⟩⟩ := hv
    rw [hptr]
    dsimp only
    rw [← hrest, hlen, List.append_assoc, List.take_left]

theorem exists_bad_iff (htexts : List.Forall₂ (fun s p => p.valueText mem = s.value) ss used)
    (k : Nat) :
    (∃ p ∈ used ++ List.replicate k .null, unescape 37 hexPair (p.valueText mem) = none) ↔
      ∃ s ∈ ss, unescape 37 hexPair s.value = none := by
  have hnull : ∀ p ∈ List.replicate k EsqUrlParameter.null,
      unescape 37 hexPair (p.valueText mem) ≠ none := by
    intro p hp
    rw [(List.mem_replicate.mp hp).2]
    exact fun he => by cases he
  induction htexts with
  | nil =>
    refine iff_of_false ?_ fun ⟨s, hs, _⟩ => by cases hs
    rintro ⟨p, hp, hbad⟩
    exact hnull p hp hbad
  | @cons s p ss used htext _ ih =>
    rw [List.cons_append, List.exists_mem_cons_iff, List.exists_mem_cons_iff, htext]
    exact or_congr_right ih

theorem badFirst_of_mem (hvalues : ∀ s ∈ ss, s.value ≠ []) (hs : s ∈ ss)
    (hbad : unescape 37 hexPair s.value = none) : BadFirst ss := by
  obtain ⟨pre, post, rfl⟩ := List.append_of_mem hs
  exact ⟨pre, s, post, rfl, fun q hq => hvalues q (List.mem_append_left _ hq), hbad⟩

theorem decodesAll_iff (h : SlotLayout ss mem) (x : List UInt8) (k : Nat) :
    DecodesAll (x ++ mem) (slotParams x.length ss ++ List.replicate k .null)
        (esqUrlParamesEscapeInPlace (x ++ mem) (slotParams x.length ss ++ List.replicate k .null)) ↔
      DecodesSlots ss (ss.length + k) := by
  have htexts : List.Forall₂ (fun s p => p.valueText (x ++ mem) = s.value) ss
      (slotParams x.length ss) :=
    (h.delivers x).imp fun s p hp => hp.valueText_eq
  have hlen : (slotParams x.length ss ++ List.replicate k EsqUrlParameter.null).length
      = ss.length + k := by
    rw [List.length_append, List.length_replicate, htexts.length_eq]
  have hbad := exists_bad_iff htexts k
  unfold esqUrlParamesEscapeInPlace
  rw [hlen]
  by_cases hfirst : BadFirst ss
  · obtain ⟨mem', param', hrun⟩ := escapeParamsLoop_badFirst h x [] (List.replicate k .null) hfirst
      (Nat.le_add_right _ k)
    refine iff_of_true ⟨-1, mem', param', hrun, iff_of_true rfl (hbad.mpr ?_),
      fun hne => absurd rfl hne⟩
      (.inr hfirst)
    obtain ⟨pre, s, post, rfl, -, hs⟩ := hfirst
    exact ⟨s, List.mem_append_right _ List.mem_cons_self, hs⟩
  · by_cases hnull : 0 < k ∨ ∃ s ∈ ss, s.value = []
    · have hrun := escapeParamsLoop_reachesNull h x [] hfirst hnull
      refine iff_of_false ?_ ?_
      · rintro ⟨code, mem', param', hr, -⟩
        rw [List.nil_append] at hrun
        exact absurd (hr.symm.trans hrun) (by simp)
      · rintro (⟨hfull, hvalues⟩ | hb)
        · rcases hnull with hk | ⟨s, hs, hempty⟩
          · omega
          · exact hvalues s hs hempty
        · exact hfirst hb
    · obtain ⟨hk, hvalues⟩ := not_or.mp hnull
      obtain rfl : k = 0 := by omega
      have hvalues : ∀ s ∈ ss, s.value ≠ [] := fun s hs he => hvalues ⟨s, hs, he⟩
      have hread : ∀ s ∈ ss, unescape 37 hexPair s.value ≠ none := fun s hs he =>
        hfirst (badFirst_of_mem hvalues hs he)
      obtain ⟨mem', hrun, hheld⟩ := escapeParamsLoop_all h x []
        (fun s hs => ⟨hvalues s hs, hread s hs⟩) htexts
      refine iff_of_true ⟨0, x ++ mem', _, hrun, iff_of_false (by decide) ?_, fun _ => ⟨?_, ?_⟩⟩
        (.inl ⟨rfl, hvalues⟩)
      · rw [hbad]
        exact fun ⟨s, hs, he⟩ => hread s hs he
      · rw [List.replicate_zero, List.append_nil, List.nil_append]
      · rw [List.replicate_zero, List.append_nil]
        exact hheld

/--
**分け方を断らない URL には slot への分け方があり、そのどれについても、すべてを decode するのは、使わない slot と
空の値が無いか、その前に読めない値があるとき、そのときに限る。**
-/
theorem esqUrlParamesEscapeInPlace_iff (t : List UInt8) (term : UInt8) (rest : List UInt8)
    (param : List EsqUrlParameter)
    (h : (esqSplitParameters (t ++ term :: rest) t.length param).1 ≠ -1) :
    (∃ ss, UrlText t ss) ∧ ∀ ss, UrlText t ss →
      (DecodesAll (esqSplitParameters (t ++ term :: rest) t.length param).2.1
          (esqSplitParameters (t ++ term :: rest) t.length param).2.2
          (esqUrlParamesEscapeInPlace (esqSplitParameters (t ++ term :: rest) t.length param).2.1
            (esqSplitParameters (t ++ term :: rest) t.length param).2.2) ↔
        DecodesSlots ss param.length) := by
  refine ⟨esqSplitParameters_text h, fun ss htext => ?_⟩
  have hfit : ss.length ≤ param.length := by
    by_contra hfull
    exact h (esqSplitParameters_full htext (by omega))
  obtain ⟨pre, mem, hmem, hrun⟩ := esqSplitParameters_slots htext hfit term rest
  have hiff := decodesAll_iff hmem pre (param.length - ss.length)
  rw [Nat.add_sub_cancel' hfit] at hiff
  rw [hrun]
  exact hiff

def letterPair : UrlPair where
  name := [110]
  value := [66]
  name_ne := List.cons_ne_nil _ _
  name_alnum := List.forall_mem_singleton.mpr (by decide)
  value_chars := List.forall_mem_singleton.mpr (by decide)

/-- `?n=B` は、一つの slot なら decode できる。 -/
theorem esqUrlParamesEscapeInPlace_letter :
    DecodesAll [63, 110, 0, 66, 0] [⟨some 1, 1, some 3, 1⟩]
      (esqUrlParamesEscapeInPlace [63, 110, 0, 66, 0] [⟨some 1, 1, some 3, 1⟩]) :=
  ((esqUrlParamesEscapeInPlace_iff [63, 110, 61, 66] 0 [] [.null] (by decide)).2 [letterPair.slot]
    (.body (.last letterPair.slot))).mpr (.inl ⟨rfl, by decide⟩)

/-- `?n=B` に二つの slot を渡すと、二つ目で NULL に書く。 -/
theorem esqUrlParamesEscapeInPlace_unused :
    (∃ mem param, esqSplitParameters [63, 110, 61, 66, 0] 4 [.null, .null] = (1, mem, param) ∧
        esqUrlParamesEscapeInPlace mem param = none) ∧
      ¬ ∀ (t : List UInt8) (term : UInt8) (rest : List UInt8) (param : List EsqUrlParameter),
        (esqSplitParameters (t ++ term :: rest) t.length param).1 ≠ -1 →
          DecodesAll (esqSplitParameters (t ++ term :: rest) t.length param).2.1
            (esqSplitParameters (t ++ term :: rest) t.length param).2.2
            (esqUrlParamesEscapeInPlace (esqSplitParameters (t ++ term :: rest) t.length param).2.1
              (esqSplitParameters (t ++ term :: rest) t.length param).2.2) := by
  have hsplit : esqSplitParameters [63, 110, 61, 66, 0] 4 [.null, .null]
      = (1, [63, 110, 0, 66, 0], [⟨some 1, 1, some 3, 1⟩, .null]) := by decide
  have hnull : esqUrlParamesEscapeInPlace [63, 110, 0, 66, 0] [⟨some 1, 1, some 3, 1⟩, .null]
      = none := by
    decide
  refine ⟨⟨_, _, hsplit, hnull⟩, fun h => ?_⟩
  have hall := h [63, 110, 61, 66] 0 [] [.null, .null] (by decide)
  obtain ⟨code, mem', param', hrun, -⟩ := hall
  have hrun' : esqUrlParamesEscapeInPlace (esqSplitParameters [63, 110, 61, 66, 0] 4
    [.null, .null]).2.1
      (esqSplitParameters [63, 110, 61, 66, 0] 4 [.null, .null]).2.2
        = some (code, mem', param') := hrun
  rw [hsplit, hnull] at hrun'
  cases hrun'

end

end Esq
