import Esq.Infra.Utf8
import Esq.Libs.PathIsVerySafe

/-!
# UTF-8 を読む

`libs/utf8-to-unicode/utf8-to-unicode.c` の `get_code_from_utf8` と、UTF-8 の形を比べる。

短くできる列を断るための判定は、頭の byte が持つ桁がどれも 0 かどうかだけを見る。そのため 0xC1 で始まる
長すぎる列を受け、頭の byte の桁が 0 になる正しい列を断る（`utf8_inverts_iff`）。
-/

namespace Esq

open Infra

section

variable {b : UInt8} {buf g : List UInt8} {n l : Nat} {code c : UInt32}

/-! ## 一つの byte -/

theorem utf8Lead_eq (h : 128 ≤ b.toNat) : utf8Lead (charToUInt b) =
    if b.toNat < 192 then none
    else if b.toNat < 224 then some (2, UInt32.ofNat (b.toNat - 192))
    else if b.toNat < 240 then some (3, UInt32.ofNat (b.toNat - 224))
    else if b.toNat < 248 then some (4, UInt32.ofNat (b.toNat - 240))
    else none := by
  have hall : ∀ k : Fin 256, 128 ≤ (UInt8.ofFin k).toNat →
      utf8Lead (charToUInt (UInt8.ofFin k)) =
        if (UInt8.ofFin k).toNat < 192 then none
        else if (UInt8.ofFin k).toNat < 224 then
          some (2, UInt32.ofNat ((UInt8.ofFin k).toNat - 192))
        else if (UInt8.ofFin k).toNat < 240 then
          some (3, UInt32.ofNat ((UInt8.ofFin k).toNat - 224))
        else if (UInt8.ofFin k).toNat < 248 then
          some (4, UInt32.ofNat ((UInt8.ofFin k).toNat - 240))
        else none := by
    decide +kernel
  exact hall b.toFin h

theorem charToUInt_low_iff (b : UInt8) : charToUInt b &&& 0x80 = 0 ↔ b.toNat < 128 := by
  have hall : ∀ k : Fin 256, charToUInt (UInt8.ofFin k) &&& 0x80 = 0 ↔
      (UInt8.ofFin k).toNat < 128 := by
    decide +kernel
  exact hall b.toFin

theorem charToUInt_tail_iff (b : UInt8) : charToUInt b &&& 0xc0 = 0x80 ↔ Utf8Tail b := by
  have hall : ∀ k : Fin 256, charToUInt (UInt8.ofFin k) &&& 0xc0 = 0x80 ↔
      128 ≤ (UInt8.ofFin k).toNat ∧ (UInt8.ofFin k).toNat < 192 := by
    decide +kernel
  exact hall b.toFin

theorem charToUInt_tail (h : Utf8Tail b) :
    charToUInt b &&& 0x3f = UInt32.ofNat (b.toNat - 128) := by
  have hall : ∀ k : Fin 256, 128 ≤ (UInt8.ofFin k).toNat ∧ (UInt8.ofFin k).toNat < 192 →
      charToUInt (UInt8.ofFin k) &&& 0x3f = UInt32.ofNat ((UInt8.ofFin k).toNat - 128) := by
    decide +kernel
  exact hall b.toFin h

theorem charToUInt_ascii (h : b.toNat < 128) : (charToUInt b).toNat = b.toNat := by
  have hall : ∀ k : Fin 256, (UInt8.ofFin k).toNat < 128 →
      (charToUInt (UInt8.ofFin k)).toNat = (UInt8.ofFin k).toNat := by
    decide +kernel
  exact hall b.toFin h

/-! ## 続く byte -/

theorem toNat_utf8Digit (hcode : code.toNat < 0x1000000) (hn : n < 64) :
    ((code <<< 6) + UInt32.ofNat n).toNat = code.toNat * 64 + n := by
  have hshift : (code <<< 6).toNat = code.toNat * 64 := by
    rw [UInt32.toNat_shiftLeft]
    show (code.toNat <<< 6) % 2 ^ 32 = _
    rw [Nat.shiftLeft_eq, Nat.mod_eq_of_lt (by omega)]
  rw [UInt32.toNat_add, hshift, UInt32.toNat_ofNat_of_lt' (show n < 2 ^ 32 by omega),
    Nat.mod_eq_of_lt (by omega)]

theorem utf8Follow_eq_some_iff : ∀ {n : Nat} {code : UInt32} {buf : List UInt8},
    (code.toNat + 1) * 64 ^ n ≤ 0x1000000 →
    (utf8Follow n code buf = some c ↔ ∃ g, g.length = n ∧ g <+: buf ∧ (∀ b ∈ g, Utf8Tail b) ∧
      c.toNat = utf8Digits code.toNat g)
  | 0, code, buf, _ => by
    constructor
    · intro h
      cases h
      exact ⟨[], rfl, List.nil_prefix, fun b hb => (nomatch hb), rfl⟩
    · rintro ⟨g, hg, -, -, hc⟩
      rw [List.length_eq_zero_iff.mp hg] at hc
      exact congrArg some (UInt32.toNat_inj.mp hc.symm)
  | n + 1, code, [], _ => by
    constructor
    · intro h
      cases h
    · rintro ⟨g, hg, hpre, -⟩
      rw [List.prefix_nil.mp hpre] at hg
      cases hg
  | n + 1, code, b :: buf, hcode => by
    have hle : (code.toNat + 1) * 64 ≤ 0x1000000 :=
      (Nat.mul_le_mul_left _ (Nat.le_self_pow (Nat.succ_ne_zero n) 64)).trans hcode
    unfold utf8Follow
    dsimp only
    by_cases hb : Utf8Tail b
    · have hk : b.toNat - 128 < 64 := by
        unfold Utf8Tail at hb
        omega
      have hnext := toNat_utf8Digit (show code.toNat < _ by omega) hk
      have hroom : (((code <<< 6) + UInt32.ofNat (b.toNat - 128)).toNat + 1) * 64 ^ n
          ≤ 0x1000000 := by
        rw [hnext]
        refine (Nat.mul_le_mul_right (64 ^ n) (show _ ≤ (code.toNat + 1) * 64 by omega)).trans ?_
        rwa [Nat.mul_assoc, ← Nat.pow_succ']
      rw [if_pos ((charToUInt_tail_iff b).mpr hb), charToUInt_tail hb,
        utf8Follow_eq_some_iff hroom, hnext]
      constructor
      · rintro ⟨g, hg, hpre, htail, hc⟩
        refine ⟨b :: g, congrArg Nat.succ hg, (List.prefix_cons_inj b).mpr hpre, ?_,
          by rw [utf8Digits_cons, hc]⟩
        intro x hx
        rcases List.mem_cons.mp hx with rfl | hx
        · exact hb
        · exact htail x hx
      · rintro ⟨g, hg, hpre, htail, hc⟩
        cases g with
        | nil => cases hg
        | cons x g =>
          obtain ⟨rfl, htl⟩ := List.cons_prefix_cons.mp hpre
          rw [utf8Digits_cons] at hc
          exact ⟨g, Nat.succ.inj hg, htl, fun y hy => htail y (List.mem_cons_of_mem x hy), hc⟩
    · rw [if_neg fun h => hb ((charToUInt_tail_iff b).mp h)]
      constructor
      · intro h
        cases h
      · rintro ⟨g, hg, hpre, htail, -⟩
        cases g with
        | nil => cases hg
        | cons x g =>
          obtain ⟨rfl, -⟩ := List.cons_prefix_cons.mp hpre
          exact absurd (htail x List.mem_cons_self) hb

/-! ## `get_code_from_utf8` -/

/-- 頭の byte が桁を持つか、一 byte の文字である。 -/
def LeadHasCode (g : List UInt8) : Prop :=
  ∀ a ∈ g.head?, a.toNat ≠ 192 ∧ a.toNat ≠ 224 ∧ a.toNat ≠ 240

theorem getCodeFromUtf8_lead (h : 128 ≤ b.toNat) {m v : Nat} (hv : (v + 1) * 64 ^ m ≤ 0x1000000)
    (hlead : utf8Lead (charToUInt b) = some (m + 1, UInt32.ofNat v)) :
    getCodeFromUtf8 (b :: buf) = some (l, c) ↔ l = m + 1 ∧ v ≠ 0 ∧ ∃ g, g.length = m ∧ g <+: buf ∧
      (∀ b ∈ g, Utf8Tail b) ∧ c.toNat = utf8Digits v g := by
  have hlt : v < 2 ^ 32 := by
    have := Nat.le_mul_of_pos_right (v + 1) (Nat.pow_pos (n := m) (show 0 < 64 by decide))
    omega
  have hcode : (UInt32.ofNat v).toNat = v := UInt32.toNat_ofNat_of_lt' hlt
  have hzero : UInt32.ofNat v = 0 ↔ v = 0 := by
    rw [← UInt32.toNat_inj, hcode, UInt32.toNat_zero]
  have hhigh : ¬ charToUInt b &&& 0x80 = 0 := fun hlow =>
    absurd ((charToUInt_low_iff b).mp hlow) (by omega)
  unfold getCodeFromUtf8
  dsimp only
  rw [if_neg hhigh, hlead]
  dsimp only
  by_cases h0 : v = 0
  · rw [if_pos (hzero.mpr h0)]
    exact ⟨fun hn => (nomatch hn), fun hand => absurd h0 hand.2.1⟩
  · rw [if_neg fun hz => h0 (hzero.mp hz), Option.map_eq_some_iff, Nat.add_sub_cancel]
    have hfollow := @utf8Follow_eq_some_iff c m (UInt32.ofNat v) buf (by rwa [hcode])
    rw [hcode] at hfollow
    constructor
    · rintro ⟨code, hcode, hpair⟩
      obtain ⟨rfl, rfl⟩ := Prod.mk.inj hpair
      exact ⟨rfl, h0, hfollow.mp hcode⟩
    · rintro ⟨rfl, -, hex⟩
      exact ⟨c, hfollow.mpr hex, rfl⟩

/--
**受けるのは、buffer が UTF-8 の形の列で始まり、頭の byte が桁を持つときである。**

返すのは、その列の長さと code である。
-/
theorem getCodeFromUtf8_eq_some_iff : getCodeFromUtf8 buf = some (l, c) ↔
    ∃ g, Utf8Form g c.toNat ∧ g.length = l ∧ g <+: buf ∧ LeadHasCode g := by
  cases buf with
  | nil =>
    constructor
    · intro h
      cases h
    · rintro ⟨g, hg, -, hpre, -⟩
      rw [List.prefix_nil.mp hpre] at hg
      cases hg
  | cons b buf =>
    by_cases hlow : b.toNat < 128
    · -- ASCII
      have hread : getCodeFromUtf8 (b :: buf) = some (1, charToUInt b) := by
        unfold getCodeFromUtf8
        exact if_pos ((charToUInt_low_iff b).mpr hlow)
      have hcode := charToUInt_ascii hlow
      rw [hread]
      constructor
      · intro h
        obtain ⟨rfl, rfl⟩ := Prod.mk.inj (Option.some.inj h)
        refine ⟨[b], hcode ▸ .one hlow, rfl, (List.prefix_cons_inj b).mpr List.nil_prefix, ?_⟩
        rintro a ⟨⟩
        omega
      · rintro ⟨g, hg, rfl, hpre, -⟩
        cases g with
        | nil => cases hg
        | cons a g =>
          obtain ⟨rfl, -⟩ := List.cons_prefix_cons.mp hpre
          obtain ⟨rfl, hc⟩ := (utf8Form_one_iff hlow).mp hg
          rw [UInt32.toNat_inj.mp (hcode.trans hc.symm)]
          rfl
    · have hhigh : 128 ≤ b.toNat := Nat.le_of_not_lt hlow
      have hlead := utf8Lead_eq hhigh
      -- 頭の byte が長さ `m + 1` と桁 `v` を持つとき
      have hread : ∀ {m v : Nat}, (v + 1) * 64 ^ m ≤ 0x1000000 →
          utf8Lead (charToUInt b) = some (m + 1, UInt32.ofNat v) →
          (∀ g w, Utf8Form (b :: g) w ↔ g.length = m ∧ (∀ x ∈ g, Utf8Tail x) ∧
            w = utf8Digits v g) → (v ≠ 0 ↔ LeadHasCode [b]) →
          (getCodeFromUtf8 (b :: buf) = some (l, c) ↔
            ∃ g, Utf8Form g c.toNat ∧ g.length = l ∧ g <+: b :: buf ∧ LeadHasCode g) := by
        intro m v hv hlead hform hcode
        rw [getCodeFromUtf8_lead hhigh hv hlead, hcode]
        constructor
        · rintro ⟨rfl, hb, g, hg, hpre, htail, hc⟩
          exact ⟨b :: g, (hform g _).mpr ⟨hg, htail, hc⟩, congrArg Nat.succ hg,
            (List.prefix_cons_inj b).mpr hpre, hb⟩
        · rintro ⟨g, hg, rfl, hpre, hb⟩
          cases g with
          | nil => cases hg
          | cons a g =>
            obtain ⟨rfl, htl⟩ := List.cons_prefix_cons.mp hpre
            obtain ⟨hlen, htail, hc⟩ := (hform g _).mp hg
            exact ⟨congrArg Nat.succ hlen, hb, g, hlen, htl, htail, hc⟩
      have hnone : utf8Lead (charToUInt b) = none → ¬ (192 ≤ b.toNat ∧ b.toNat < 248) →
          (getCodeFromUtf8 (b :: buf) = some (l, c) ↔
            ∃ g, Utf8Form g c.toNat ∧ g.length = l ∧ g <+: b :: buf ∧ LeadHasCode g) := by
        intro hlead hrange
        have hread : getCodeFromUtf8 (b :: buf) = none := by
          unfold getCodeFromUtf8
          dsimp only
          rw [if_neg fun h => hlow ((charToUInt_low_iff b).mp h), hlead]
        rw [hread]
        constructor
        · intro h
          cases h
        · rintro ⟨g, hg, -, hpre, -⟩
          cases g with
          | nil => cases hg
          | cons a g =>
            obtain ⟨rfl, -⟩ := List.cons_prefix_cons.mp hpre
            have := hg.head_lt
            omega
      have hsingle : LeadHasCode [b] ↔ b.toNat ≠ 192 ∧ b.toNat ≠ 224 ∧ b.toNat ≠ 240 :=
        ⟨fun h => h b rfl, fun h a ha => by cases ha; exact h⟩
      by_cases h1 : b.toNat < 192
      · rw [if_pos h1] at hlead
        exact hnone hlead (by omega)
      rw [if_neg h1] at hlead
      by_cases h2 : b.toNat < 224
      · rw [if_pos h2] at hlead
        refine hread (by omega) hlead (fun g w => utf8Form_two_iff ⟨by omega, h2⟩) ?_
        rw [hsingle]
        omega
      rw [if_neg h2] at hlead
      by_cases h3 : b.toNat < 240
      · rw [if_pos h3] at hlead
        refine hread (by omega) hlead (fun g w => utf8Form_three_iff ⟨by omega, h3⟩) ?_
        rw [hsingle]
        omega
      rw [if_neg h3] at hlead
      by_cases h4 : b.toNat < 248
      · rw [if_pos h4] at hlead
        refine hread (by omega) hlead (fun g w => utf8Form_four_iff ⟨by omega, h4⟩) ?_
        rw [hsingle]
        omega
      rw [if_neg h4] at hlead
      exact hnone hlead (by omega)

/-! ## UTF-8 の符号化の逆 -/

/-- 符号化したとき、頭の byte の持つ桁がどれも 0 になる code。 -/
def LeadZero (v : Nat) : Prop := 0x800 ≤ v ∧ v ≤ 0xfff ∨ 0x10000 ≤ v ∧ v ≤ 0x3ffff

theorem leadHasCode_encode {v : Nat} (hv : v < 0x200000) :
    LeadHasCode (utf8Encode v) ↔ ¬ LeadZero v := by
  have hcons : ∀ {n : Nat} {g : List UInt8}, n < 256 → (LeadHasCode (UInt8.ofNat n :: g) ↔
      n ≠ 192 ∧ n ≠ 224 ∧ n ≠ 240) := by
    intro n g hn
    have hto := toNat_ofNat_of_lt hn
    constructor
    · intro h
      have := h _ rfl
      rwa [hto] at this
    · rintro h a ⟨⟩
      rwa [hto]
  unfold LeadZero utf8Encode
  split
  · rw [hcons (by omega)]
    omega
  split
  · rw [hcons (by omega)]
    omega
  split
  · rw [hcons (by omega)]
    omega
  · rw [hcons (by omega)]
    omega

theorem utf8Form_eq_encode_iff {v : Nat} (h : Utf8Form g v) (hlead : LeadHasCode g) :
    g = utf8Encode v ↔ g.head? ≠ some 0xc1 := by
  have hlen : g = utf8Encode v ↔ g.length = (utf8Encode v).length :=
    ⟨congrArg List.length, h.eq_encode⟩
  rw [hlen, length_utf8Encode]
  have hc1 : ∀ {a : UInt8}, a = 0xc1 ↔ a.toNat = 193 := fun {a} => UInt8.toNat_inj.symm
  cases h with
  | one ha =>
    rw [if_pos (by omega)]
    refine iff_of_true rfl fun he => ?_
    rw [hc1.mp (Option.some.inj he)] at ha
    omega
  | @two a b ha hb =>
    have hne := hlead a rfl
    unfold Utf8Tail at hb
    rw [List.head?_cons, ne_eq, Option.some_inj, hc1]
    simp only [List.length_cons, List.length_nil]
    split
    · omega
    · rw [if_pos (by omega)]
      omega
  | @three a b c ha hb hc =>
    have hne := hlead a rfl
    unfold Utf8Tail at hb hc
    rw [List.head?_cons, ne_eq, Option.some_inj, hc1, if_neg (by omega), if_neg (by omega),
      if_pos (by omega)]
    exact iff_of_true rfl (by omega)
  | @four a b c d ha hb hc hd =>
    have hne := hlead a rfl
    unfold Utf8Tail at hb hc hd
    rw [List.head?_cons, ne_eq, Option.some_inj, hc1, if_neg (by omega), if_neg (by omega),
      if_neg (by omega)]
    exact iff_of_true rfl (by omega)

/--
**文字 `u` の符号化を読んで `u` に戻るのは、頭の byte が桁を持つとき、そのときに限る。受けた列がその code の
最も短い符号化であるのは、0xC1 で始まらないとき、そのときに限る。**
-/
theorem utf8_inverts_iff (u : Char) (rest buf : List UInt8) (l : Nat) (c : UInt32) :
    (getCodeFromUtf8 (String.utf8EncodeChar u ++ rest)
        = some ((String.utf8EncodeChar u).length, u.val) ↔ ¬ LeadZero u.val.toNat) ∧
      (getCodeFromUtf8 buf = some (l, c) →
        (buf.take l = utf8Encode c.toNat ↔ buf.head? ≠ some 0xc1)) := by
  constructor
  · have hu : u.val.toNat < 0x200000 := by
      have := u.valid
      rcases this with h | ⟨-, h⟩
      · exact h.trans (by decide)
      · exact h.trans (by decide)
    have hform := utf8Form_encode hu
    rw [utf8EncodeChar_eq, getCodeFromUtf8_eq_some_iff, ← leadHasCode_encode hu]
    constructor
    · rintro ⟨g, hg, hlen, -, hlead⟩
      rwa [← hg.eq_encode hlen]
    · exact fun hlead => ⟨_, hform, rfl, List.prefix_append _ _, hlead⟩
  · intro h
    obtain ⟨g, hg, rfl, ⟨rest, rfl⟩, hlead⟩ := getCodeFromUtf8_eq_some_iff.mp h
    rw [List.take_left, utf8Form_eq_encode_iff hg hlead]
    cases g with
    | nil => cases hg
    | cons a g => rfl

/-- `é` は読み戻せ、読んだ二 byte は最も短い。 -/
theorem utf8_inverts_accent :
    getCodeFromUtf8 (String.utf8EncodeChar 'é' ++ [0]) = some (2, 0xe9) ∧
      ([0xc3, 0xa9, 0] : List UInt8).take 2 = utf8Encode 0xe9 :=
  have h := utf8_inverts_iff 'é' [0] [0xc3, 0xa9, 0] 2 0xe9
  ⟨h.1.mpr (by unfold LeadZero; decide), (h.2 (by decide)).mpr (by decide)⟩

/-- U+0800 の符号化を断り、`A` を二 byte にした 0xC1 0x81 を受ける。 -/
theorem utf8_overlong_accepted :
    (¬ ∀ (u : Char) (rest : List UInt8), getCodeFromUtf8 (String.utf8EncodeChar u ++ rest)
        = some ((String.utf8EncodeChar u).length, u.val)) ∧
      ¬ ∀ (buf : List UInt8) (l : Nat) (c : UInt32), getCodeFromUtf8 buf = some (l, c) →
        buf.take l = utf8Encode c.toNat :=
  ⟨fun h => absurd (h (Char.ofNat 0x800) []) (by decide),
    fun h => absurd (h [0xc1, 0x81] 2 0x41 (by decide)) (by decide)⟩

end

end Esq
