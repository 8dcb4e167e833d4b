import Esq.Libs.Sscanf

/-!
# hash の文字列の形

`libs/sscanf/hash-string.c` の `get_hash_string` が受ける文字列は、空白、16 進の数字、`x` の順に並ぶ。

数字が一つでもあれば、返す領域は数字の並びである。数字が無いと `start` は初めの 0 のままなので、領域は
`x` の前の空白になる。
-/

namespace Esq

/-! ## 文字 -/

def IsHexDigit (c : UInt8) : Prop := 48 ≤ c ∧ c ≤ 57 ∨ 65 ≤ c ∧ c ≤ 70 ∨ 97 ≤ c ∧ c ≤ 102

instance (c : UInt8) : Decidable (IsHexDigit c) := inferInstanceAs (Decidable (_ ∨ _))

def IsHashBlank (c : UInt8) : Prop := c = 9 ∨ c = 10 ∨ c = 13 ∨ c = 32

instance (c : UInt8) : Decidable (IsHashBlank c) := inferInstanceAs (Decidable (_ ∨ _))

def IsHashMark (c : UInt8) : Prop := c = 88 ∨ c = 120

instance (c : UInt8) : Decidable (IsHashMark c) := inferInstanceAs (Decidable (_ ∨ _))

theorem handleTable_number_iff {c : UInt8} : hashStringHandleTable c = .number ↔ IsHexDigit c := by
  unfold hashStringHandleTable IsHexDigit
  constructor
  · intro h
    split_ifs at h with h1 h2 h3
    · exact Or.inl h1
    · exact Or.inr (Or.inl h2)
    · exact Or.inr (Or.inr h3)
  · intro h
    split_ifs with h1 h2 h3
    · rfl
    · rfl
    · rfl
    all_goals exact absurd h (by simp only [h1, h2, h3, or_self, not_false_eq_true])

theorem handleTable_blank_iff {c : UInt8} : hashStringHandleTable c = .blank ↔ IsHashBlank c := by
  constructor
  · intro h
    unfold hashStringHandleTable at h
    split_ifs at h with h1 h2 h3 h4 h5
    exact h5
  · rintro (rfl | rfl | rfl | rfl) <;> rfl

theorem handleTable_endMark_iff {c : UInt8} :
    hashStringHandleTable c = .endMark ↔ IsHashMark c := by
  constructor
  · intro h
    unfold hashStringHandleTable at h
    split_ifs at h with h1 h2 h3 h4 h5
    exact h4
  · rintro (rfl | rfl) <;> rfl

theorem IsHashBlank.not_digit {c : UInt8} (h : IsHashBlank c) : ¬ IsHexDigit c := by
  intro hd
  rw [← handleTable_blank_iff] at h
  rw [← handleTable_number_iff, h] at hd
  cases hd

/-! ## 読んだ形 -/

structure HashString where
  blanks : List UInt8
  digits : List UInt8
  mark : UInt8
  rest : List UInt8
  blanks_blank : ∀ c ∈ blanks, IsHashBlank c
  digits_hex : ∀ c ∈ digits, IsHexDigit c
  mark_mark : IsHashMark mark

namespace HashString

variable (h : HashString)

def bytes : List UInt8 := h.blanks ++ (h.digits ++ h.mark :: h.rest)

def markAt : Nat := h.blanks.length + h.digits.length

def start : Nat := if h.digits = [] then 0 else h.blanks.length

def len : Nat := if h.digits = [] then h.blanks.length else h.digits.length

def BlankOnly : Prop := h.digits = [] ∧ h.blanks ≠ []

variable {h}

theorem start_add_len : h.start + h.len = h.markAt := by
  unfold start len markAt
  by_cases hd : h.digits = []
  · rw [if_pos hd, if_pos hd, hd, Nat.zero_add]
    rfl
  · rw [if_neg hd, if_neg hd]

theorem length_bytes : h.bytes.length = h.markAt + 1 + h.rest.length := by
  simp only [bytes, markAt, List.length_append, List.length_cons]
  omega

theorem getElem?_mark : h.bytes[h.start + h.len]? = some h.mark := by
  rw [start_add_len]
  unfold bytes markAt
  rw [← List.append_assoc, List.getElem?_append_right (by rw [List.length_append]),
    List.length_append, Nat.sub_self]
  rfl

theorem region_eq (hb : ¬ h.BlankOnly) : (h.bytes.drop h.start).take h.len = h.digits := by
  unfold start len bytes
  by_cases hd : h.digits = []
  · have hnil : h.blanks = [] := by
      by_contra hne
      exact hb ⟨hd, hne⟩
    rw [if_pos hd, if_pos hd, hd, hnil]
    rfl
  · rw [if_neg hd, if_neg hd, List.drop_left, List.take_left]

theorem region_blank (hb : h.BlankOnly) : (h.bytes.drop h.start).take h.len = h.blanks := by
  unfold start len bytes
  rw [if_pos hb.1, if_pos hb.1, List.drop_zero, List.take_left]

end HashString

/-! ## loop -/

theorem getHashStringLoop_hash (cs : List UInt8) : ∀ {s0 i r start len : Nat},
    getHashStringLoop (some s0) i cs = some (r, start, len) →
    ∃ digits mark rest, cs = digits ++ mark :: rest ∧ (∀ c ∈ digits, IsHexDigit c) ∧
      IsHashMark mark ∧ r = i + digits.length + 1 ∧ start = s0 ∧ len = i + digits.length - s0 ∧
      len % 2 = 0 := by
  induction cs with
  | nil =>
    intro s0 i r start len h
    cases h
  | cons c cs ih =>
    intro s0 i r start len h
    rw [getHashStringLoop] at h
    split at h
    next hc => cases h
    next hc =>
      obtain ⟨digits, mark, rest, rfl, hdigits, hmark, hr, hs, hl, heven⟩ := ih h
      refine ⟨c :: digits, mark, rest, rfl, ?_, hmark, ?_, hs, ?_, heven⟩
      · exact List.forall_mem_cons.mpr ⟨handleTable_number_iff.mp hc, hdigits⟩
      · rw [List.length_cons]
        omega
      · rw [hl, List.length_cons, Nat.add_assoc, Nat.add_comm 1]
        rfl
    next hc => cases h
    next hc =>
      split at h
      · cases h
      next heven =>
        cases h
        exact ⟨[], c, cs, rfl, fun _ hd => (by cases hd), handleTable_endMark_iff.mp hc, rfl, rfl,
          rfl, by simpa using heven⟩

theorem getHashStringLoop_digits (digits : List UInt8) : ∀ {s0 i : Nat} {mark : UInt8}
    {rest : List UInt8}, (∀ c ∈ digits, IsHexDigit c) → IsHashMark mark →
    (i + digits.length - s0) % 2 = 0 →
    getHashStringLoop (some s0) i (digits ++ mark :: rest)
      = some (i + digits.length + 1, s0, i + digits.length - s0) := by
  induction digits with
  | nil =>
    intro s0 i mark rest _ hmark heven
    rw [List.nil_append, getHashStringLoop, handleTable_endMark_iff.mpr hmark]
    dsimp only [Option.getD_some]
    rw [if_neg (by rw [List.length_nil] at heven; omega)]
    rfl
  | cons c digits ih =>
    intro s0 i mark rest hdigits hmark heven
    obtain ⟨hc, hdigits⟩ := List.forall_mem_cons.mp hdigits
    rw [List.cons_append, getHashStringLoop, handleTable_number_iff.mpr hc]
    dsimp only [Option.getD_some]
    rw [List.length_cons] at heven ⊢
    rw [ih hdigits hmark (by omega), show i + 1 + digits.length = i + (digits.length + 1) by omega]

theorem getHashStringLoop_start (cs : List UInt8) : ∀ {n r start len : Nat},
    getHashStringLoop none n cs = some (r, start, len) →
    ∃ h : HashString, cs = h.bytes ∧ r = n + h.markAt + 1 ∧ len % 2 = 0 ∧
      (h.digits = [] → start = 0 ∧ len = n + h.blanks.length) ∧
      (h.digits ≠ [] → start = n + h.blanks.length ∧ len = h.digits.length) := by
  induction cs with
  | nil =>
    intro n r start len h
    cases h
  | cons c cs ih =>
    intro n r start len h
    rw [getHashStringLoop] at h
    split at h
    next hc => cases h
    next hc =>
      dsimp only [Option.getD_none] at h
      obtain ⟨digits, mark, rest, rfl, hdigits, hmark, hr, hs, hl, heven⟩ :=
        getHashStringLoop_hash cs h
      refine ⟨⟨[], c :: digits, mark, rest, fun _ hb => (by cases hb),
        List.forall_mem_cons.mpr ⟨handleTable_number_iff.mp hc, hdigits⟩, hmark⟩, rfl, ?_, heven,
        fun hd => (by cases hd), fun _ => ⟨hs, ?_⟩⟩
      · simp only [HashString.markAt, List.length_nil, List.length_cons]
        omega
      · simp only [List.length_cons]
        omega
    next hc =>
      rw [if_neg (by simp)] at h
      obtain ⟨x, rfl, hr, heven, hnil, hcons⟩ := ih h
      refine ⟨⟨c :: x.blanks, x.digits, x.mark, x.rest,
        List.forall_mem_cons.mpr ⟨handleTable_blank_iff.mp hc, x.blanks_blank⟩, x.digits_hex,
        x.mark_mark⟩, rfl, ?_, heven, fun hd => ?_, fun hd => ?_⟩
      · simp only [HashString.markAt, List.length_cons] at hr ⊢
        omega
      · have := hnil hd
        simp only [List.length_cons]
        omega
      · have := hcons hd
        simp only [List.length_cons]
        omega
    next hc =>
      dsimp only [Option.getD_none] at h
      split at h
      · cases h
      next heven =>
        cases h
        exact ⟨⟨[], [], c, cs, fun _ hb => (by cases hb), fun _ hd => (by cases hd),
          handleTable_endMark_iff.mp hc⟩, rfl, rfl, by omega, fun _ => ⟨rfl, rfl⟩,
          fun hd => absurd rfl hd⟩

theorem getHashStringLoop_blanks (blanks : List UInt8) : ∀ {n : Nat} {cs : List UInt8},
    (∀ c ∈ blanks, IsHashBlank c) →
    getHashStringLoop none n (blanks ++ cs) = getHashStringLoop none (n + blanks.length) cs := by
  induction blanks with
  | nil =>
    intro n cs _
    rfl
  | cons c blanks ih =>
    intro n cs h
    obtain ⟨hc, h⟩ := List.forall_mem_cons.mp h
    rw [List.cons_append, getHashStringLoop, handleTable_blank_iff.mpr hc]
    show getHashStringLoop none (n + 1) (blanks ++ cs) = _
    rw [ih h, List.length_cons, show n + 1 + blanks.length = n + (blanks.length + 1) by omega]

/-! ## get_hash_string -/

/-- **`get_hash_string` が読む文字列は、空白、数字、`x` の順に並ぶ。** -/
theorem getHashString_cases {buf : List UInt8} {r start len : Nat}
    (h : getHashString buf = some (r, start, len)) :
    ∃ x : HashString, buf = x.bytes ∧ r = x.markAt + 1 ∧ start = x.start ∧ len = x.len ∧
      len % 2 = 0 := by
  obtain ⟨x, hx, hr, heven, hnil, hcons⟩ := getHashStringLoop_start buf h
  refine ⟨x, hx, by omega, ?_, ?_, heven⟩
  · unfold HashString.start
    split
    next hd => exact (hnil hd).1
    next hd => rw [(hcons hd).1, Nat.zero_add]
  · unfold HashString.len
    split
    next hd => rw [(hnil hd).2, Nat.zero_add]
    next hd => exact (hcons hd).2

theorem getHashString_bytes (x : HashString) (heven : x.len % 2 = 0) :
    getHashString x.bytes = some (x.markAt + 1, x.start, x.len) := by
  unfold getHashString HashString.bytes HashString.markAt
  rw [getHashStringLoop_blanks _ x.blanks_blank, Nat.zero_add]
  by_cases hd : x.digits = []
  · have hlen : x.len = x.blanks.length := if_pos hd
    have hstart : x.start = 0 := if_pos hd
    rw [hlen] at heven
    rw [hlen, hstart, hd, List.nil_append, getHashStringLoop,
      handleTable_endMark_iff.mpr x.mark_mark]
    dsimp only [Option.getD_none]
    rw [if_neg (by omega)]
    rfl
  · have hlen : x.len = x.digits.length := if_neg hd
    have hstart : x.start = x.blanks.length := if_neg hd
    rw [hlen, hstart]
    rw [hlen] at heven
    obtain ⟨c, digits, hcd⟩ := List.exists_cons_of_ne_nil hd
    have hhex := x.digits_hex
    rw [hcd] at hhex heven ⊢
    obtain ⟨hc, hhex⟩ := List.forall_mem_cons.mp hhex
    rw [List.length_cons] at heven
    rw [List.cons_append, getHashStringLoop, handleTable_number_iff.mpr hc]
    dsimp only [Option.getD_none]
    rw [getHashStringLoop_digits digits hhex x.mark_mark (by omega), List.length_cons]
    simp only [Option.some.injEq, Prod.mk.injEq, true_and]
    omega

end Esq
