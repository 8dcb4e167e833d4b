import Mathlib.Data.UInt

/-!
# UTF-8

code を UTF-8 の byte の列にする（`utf8Encode`）。文字である code では、標準の符号化に等しい。

頭の byte が長さと上の桁を、続く byte が六桁ずつを持つ、という形だけを見れば、一つの code を表す列は
長さごとに一つある（`Utf8Form`）。`utf8Encode` と同じ長さのものは、それだけである（`Utf8Form.eq_encode`）。
-/

namespace Infra

def utf8Encode (v : Nat) : List UInt8 :=
  if v ≤ 0x7f then [UInt8.ofNat v]
  else if v ≤ 0x7ff then
    [UInt8.ofNat (v / 64 % 0x20 + 0xc0), UInt8.ofNat (v % 0x40 + 0x80)]
  else if v ≤ 0xffff then
    [UInt8.ofNat (v / 4096 % 0x10 + 0xe0), UInt8.ofNat (v / 64 % 0x40 + 0x80),
      UInt8.ofNat (v % 0x40 + 0x80)]
  else
    [UInt8.ofNat (v / 262144 % 0x08 + 0xf0), UInt8.ofNat (v / 4096 % 0x40 + 0x80),
      UInt8.ofNat (v / 64 % 0x40 + 0x80), UInt8.ofNat (v % 0x40 + 0x80)]

theorem utf8EncodeChar_eq (u : Char) : String.utf8EncodeChar u = utf8Encode u.val.toNat := rfl

def Utf8Tail (b : UInt8) : Prop := 128 ≤ b.toNat ∧ b.toNat < 192

def utf8Digits (v : Nat) (g : List UInt8) : Nat := g.foldl (fun v b => v * 64 + (b.toNat - 128)) v

theorem utf8Digits_cons (v : Nat) (b : UInt8) (g : List UInt8) :
    utf8Digits v (b :: g) = utf8Digits (v * 64 + (b.toNat - 128)) g := List.foldl_cons ..

/-- code `v` を表す形の列。最も短いとは限らない。 -/
inductive Utf8Form : List UInt8 → Nat → Prop where
  | one {a : UInt8} (ha : a.toNat < 128) : Utf8Form [a] a.toNat
  | two {a b : UInt8} (ha : 192 ≤ a.toNat ∧ a.toNat < 224) (hb : Utf8Tail b) :
    Utf8Form [a, b] ((a.toNat - 192) * 64 + (b.toNat - 128))
  | three {a b c : UInt8} (ha : 224 ≤ a.toNat ∧ a.toNat < 240) (hb : Utf8Tail b) (hc : Utf8Tail c) :
    Utf8Form [a, b, c] (((a.toNat - 224) * 64 + (b.toNat - 128)) * 64 + (c.toNat - 128))
  | four {a b c d : UInt8} (ha : 240 ≤ a.toNat ∧ a.toNat < 248) (hb : Utf8Tail b) (hc : Utf8Tail c)
    (hd : Utf8Tail d) :
    Utf8Form [a, b, c, d]
      ((((a.toNat - 240) * 64 + (b.toNat - 128)) * 64 + (c.toNat - 128)) * 64 + (d.toNat - 128))

section

variable {g g' : List UInt8} {v n : Nat} {b : UInt8}

/-! ## 頭の byte -/

theorem Utf8Form.head_lt {a : UInt8} (h : Utf8Form (a :: g) v) :
    a.toNat < 128 ∨ 192 ≤ a.toNat ∧ a.toNat < 248 := by
  cases h with
  | one ha => exact .inl ha
  | two ha => omega
  | three ha => omega
  | four ha => omega

section

variable {a : UInt8}

theorem utf8Form_one_iff (ha : a.toNat < 128) : Utf8Form (a :: g) v ↔ g = [] ∧ v = a.toNat := by
  constructor
  · intro h
    cases h with
    | one => exact ⟨rfl, rfl⟩
    | _ => omega
  · rintro ⟨rfl, rfl⟩
    exact .one ha

theorem utf8Form_two_iff (ha : 192 ≤ a.toNat ∧ a.toNat < 224) : Utf8Form (a :: g) v ↔
    g.length = 1 ∧ (∀ b ∈ g, Utf8Tail b) ∧ v = utf8Digits (a.toNat - 192) g := by
  constructor
  · intro h
    cases h with
    | two _ hb => exact ⟨rfl, by simpa using hb, rfl⟩
    | _ => omega
  · rintro ⟨hlen, htail, rfl⟩
    match g, hlen with
    | [b], _ => exact .two ha (htail b (by simp))

theorem utf8Form_three_iff (ha : 224 ≤ a.toNat ∧ a.toNat < 240) : Utf8Form (a :: g) v ↔
    g.length = 2 ∧ (∀ b ∈ g, Utf8Tail b) ∧ v = utf8Digits (a.toNat - 224) g := by
  constructor
  · intro h
    cases h with
    | three _ hb hc => exact ⟨rfl, by simpa using ⟨hb, hc⟩, rfl⟩
    | _ => omega
  · rintro ⟨hlen, htail, rfl⟩
    match g, hlen with
    | [b, c], _ => exact .three ha (htail b (by simp)) (htail c (by simp))

theorem utf8Form_four_iff (ha : 240 ≤ a.toNat ∧ a.toNat < 248) : Utf8Form (a :: g) v ↔
    g.length = 3 ∧ (∀ b ∈ g, Utf8Tail b) ∧ v = utf8Digits (a.toNat - 240) g := by
  constructor
  · intro h
    cases h with
    | four _ hb hc hd => exact ⟨rfl, by simpa using ⟨hb, hc, hd⟩, rfl⟩
    | _ => omega
  · rintro ⟨hlen, htail, rfl⟩
    match g, hlen with
    | [b, c, d], _ => exact .four ha (htail b (by simp)) (htail c (by simp)) (htail d (by simp))

end

/-! ## 符号化 -/

theorem toNat_ofNat_of_lt (h : n < 256) : (UInt8.ofNat n).toNat = n :=
  UInt8.toNat_ofNat_of_lt' h

theorem utf8Tail_ofNat (n : Nat) : Utf8Tail (UInt8.ofNat (n % 0x40 + 0x80)) := by
  unfold Utf8Tail
  rw [toNat_ofNat_of_lt (by omega)]
  omega

theorem utf8Form_encode (hv : v < 0x200000) : Utf8Form (utf8Encode v) v := by
  have htail : ∀ n : Nat, (UInt8.ofNat (n % 0x40 + 0x80)).toNat - 128 = n % 64 := fun n => by
    rw [toNat_ofNat_of_lt (by omega)]
    omega
  unfold utf8Encode
  split
  · have h := Utf8Form.one (a := UInt8.ofNat v) (by rw [toNat_ofNat_of_lt (by omega)]; omega)
    rwa [toNat_ofNat_of_lt (by omega)] at h
  split
  · have h := Utf8Form.two (a := UInt8.ofNat (v / 64 % 0x20 + 0xc0))
      (by rw [toNat_ofNat_of_lt (by omega)]; omega) (utf8Tail_ofNat v)
    rw [htail, toNat_ofNat_of_lt (by omega)] at h
    rwa [show (v / 64 % 0x20 + 0xc0 - 192) * 64 + v % 64 = v by omega] at h
  split
  · have h := Utf8Form.three (a := UInt8.ofNat (v / 4096 % 0x10 + 0xe0))
      (by rw [toNat_ofNat_of_lt (by omega)]; omega) (utf8Tail_ofNat (v / 64)) (utf8Tail_ofNat v)
    rw [htail, htail, toNat_ofNat_of_lt (by omega)] at h
    rwa [show ((v / 4096 % 0x10 + 0xe0 - 224) * 64 + v / 64 % 64) * 64 + v % 64 = v by omega] at h
  · have h := Utf8Form.four (a := UInt8.ofNat (v / 262144 % 0x08 + 0xf0))
      (by rw [toNat_ofNat_of_lt (by omega)]; omega) (utf8Tail_ofNat (v / 4096))
      (utf8Tail_ofNat (v / 64)) (utf8Tail_ofNat v)
    rw [htail, htail, htail, toNat_ofNat_of_lt (by omega)] at h
    rwa [show (((v / 262144 % 0x08 + 0xf0 - 240) * 64 + v / 4096 % 64) * 64 + v / 64 % 64) * 64
      + v % 64 = v by omega] at h

theorem length_utf8Encode (v : Nat) : (utf8Encode v).length
    = if v ≤ 0x7f then 1 else if v ≤ 0x7ff then 2 else if v ≤ 0xffff then 3 else 4 := by
  unfold utf8Encode
  split
  · rfl
  split
  · rfl
  split <;> rfl

theorem eq_ofNat {x : UInt8} (hn : n < 256) (h : x.toNat = n) : x = UInt8.ofNat n :=
  UInt8.toNat_inj.mp (h.trans (toNat_ofNat_of_lt hn).symm)

/-- **符号化と同じ長さの列は、符号化である。** -/
theorem Utf8Form.eq_encode (h : Utf8Form g v) (hl : g.length = (utf8Encode v).length) :
    g = utf8Encode v := by
  have hv := length_utf8Encode v
  rw [← hl] at hv
  unfold utf8Encode
  cases h with
  | one ha => rw [if_pos (by omega), UInt8.ofNat_toNat]
  | two ha hb =>
    unfold Utf8Tail at hb
    simp only [List.length_cons, List.length_nil] at hv
    split at hv
    · omega
    next h1 =>
    split at hv
    next h2 =>
      rw [if_neg h1, if_pos h2]
      exact congrArg₂ _ (eq_ofNat (by omega) (by omega))
        (congrArg₂ _ (eq_ofNat (by omega) (by omega)) rfl)
    · split at hv <;> omega
  | three ha hb hc =>
    unfold Utf8Tail at hb hc
    simp only [List.length_cons, List.length_nil] at hv
    split at hv
    · omega
    next h1 =>
    split at hv
    · omega
    next h2 =>
    split at hv
    next h3 =>
      rw [if_neg h1, if_neg h2, if_pos h3]
      exact congrArg₂ _ (eq_ofNat (by omega) (by omega))
        (congrArg₂ _ (eq_ofNat (by omega) (by omega))
          (congrArg₂ _ (eq_ofNat (by omega) (by omega)) rfl))
    · omega
  | four ha hb hc hd =>
    unfold Utf8Tail at hb hc hd
    simp only [List.length_cons, List.length_nil] at hv
    split at hv
    · omega
    next h1 =>
    split at hv
    · omega
    next h2 =>
    split at hv
    · omega
    next h3 =>
      rw [if_neg h1, if_neg h2, if_neg h3]
      exact congrArg₂ _ (eq_ofNat (by omega) (by omega))
        (congrArg₂ _ (eq_ofNat (by omega) (by omega))
          (congrArg₂ _ (eq_ofNat (by omega) (by omega))
            (congrArg₂ _ (eq_ofNat (by omega) (by omega)) rfl)))

end

end Infra
