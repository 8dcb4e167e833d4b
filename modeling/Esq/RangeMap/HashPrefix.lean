import Esq.Libs.HashString
import Esq.RangeMap.Dump

/-!
# hash の文字列と prefix

`get_hash_string` が返す領域と、`src/range-map.c` の `TRANSLATE_MKC_PARAMS` が `hash_str_2_bin` で作る
prefix。

`hash_str_2_bin` は 16 進の数字でない byte を黙って 0 と読む。`get_hash_string` が空白の領域を返すと、
空白の並びが 0 の並びと同じ prefix になる。
-/

namespace Esq

/-! ## 約束 -/

/-- 返す領域は偶数個の 16 進の数字で、`x` がすぐ後ろにある。 -/
structure HashRegion (buf : List UInt8) (start len : Nat) : Prop where
  digits : ∀ c ∈ (buf.drop start).take len, IsHexDigit c
  even : len % 2 = 0
  mark : ∃ c, buf[start + len]? = some c ∧ IsHashMark c

/-- `get_hash_string` が成功したら、領域は 16 進の数字の並びである。 -/
def HashExact (buf : List UInt8) : Prop :=
  ∀ r start len, getHashString buf = some (r, start, len) → HashRegion buf start len

def foldCase (c : UInt8) : UInt8 := if 65 ≤ c ∧ c ≤ 90 then c + 32 else c

/--
`range_map_add_node` が受ける二つの `hash_string` は、書かれた数字のとおりに読まれ、大文字と小文字の他に
違いがあれば違う長さか prefix になる。
-/
structure PrefixesExact (s t : CStr) : Prop where
  decode : ∀ u, u = s ∨ u = t → ∀ ipStr params, translateMkcParams ipStr u = .ok params →
    (u.bytes.take params.hashStrLen).map foldCase = params.hash.flatMap hexByte
  distinct : ∀ ipStr params ipStr' params', translateMkcParams ipStr s = .ok params →
    translateMkcParams ipStr' t = .ok params' → s.bytes.map foldCase ≠ t.bytes.map foldCase →
    (params.hash.length, params.hash) ≠ (params'.hash.length, params'.hash)

/-! ## 失敗する文字列 -/

def BlankMark (buf : List UInt8) : Prop :=
  ∃ x : HashString, buf = x.bytes ∧ x.BlankOnly ∧ x.blanks.length % 2 = 0

/-- 偶数個の空白と `x` だけの、`range_map_add_node` が受ける長さの文字列。 -/
def BlankPrefix (s : CStr) : Prop :=
  s.bytes.length ≤ hashValueLength + 1 ∧
    ∃ x : HashString, s.bytes = x.bytes ∧ x.BlankOnly ∧ x.blanks.length % 2 = 0 ∧ x.rest = []

/-! ## 領域 -/

/-- **`get_hash_string` の領域が 16 進の数字になるのは、空白だけの文字列でないときに限る。** -/
theorem hashExact_iff (buf : List UInt8) : HashExact buf ↔ ¬ BlankMark buf := by
  constructor
  · rintro h ⟨x, rfl, hb, heven⟩
    have hlen : x.len = x.blanks.length := if_pos hb.1
    have hregion := h _ _ _ (getHashString_bytes x (by rw [hlen, heven]))
    -- 領域は空白の並びである。
    have hdigits := hregion.digits
    rw [HashString.region_blank hb] at hdigits
    obtain ⟨c, blanks, hc⟩ := List.exists_cons_of_ne_nil hb.2
    have hmem : c ∈ x.blanks := by
      rw [hc]
      exact List.mem_cons_self
    exact (x.blanks_blank c hmem).not_digit (hdigits c hmem)
  · intro hb r start len h
    obtain ⟨x, rfl, -, rfl, rfl, heven⟩ := getHashString_cases h
    have hx : ¬ x.BlankOnly := by
      intro hx
      have hlen : x.len = x.blanks.length := if_pos hx.1
      exact hb ⟨x, rfl, hx, by rw [← hlen, heven]⟩
    exact ⟨by rw [HashString.region_eq hx]; exact x.digits_hex, heven, x.mark,
      HashString.getElem?_mark, x.mark_mark⟩

/-! ## prefix -/

section

variable {s t ipStr : CStr} {params : MkcParams}

structure TranslatedHash (s : CStr) (params : MkcParams) (x : HashString) : Prop where
  bytes : s.bytes = x.bytes
  rest : x.rest = []
  len : params.hashStrLen = x.len
  even : x.len % 2 = 0
  start : x.start = 0
  length : s.bytes.length ≤ hashValueLength + 1
  hash : hashStr2Bin (s.bytes.take x.len) = some params.hash

theorem translatedHash (h : translateMkcParams ipStr s = .ok params) :
    ∃ x, TranslatedHash s params x := by
  unfold translateMkcParams at h
  dsimp only at h
  split at h
  · cases h
  split at h
  · cases h
  split at h
  · cases h
  next hl =>
    have hlen : s.bytes.length ≤ hashValueLength + 1 := by
      unfold CStr.strnlen at hl
      omega
    have htake : s.bytes.take (s.strnlen (hashValueLength + 3)) = s.bytes := by
      unfold CStr.strnlen
      exact List.take_of_length_le (by omega)
    rw [htake] at h
    split at h
    · cases h
    next r start len hget =>
      split at h
      · cases h
      next hcheck =>
        split at h
        · cases h
        next hash hbin =>
          cases h
          obtain ⟨x, hx, -, hstart, hl', heven⟩ := getHashString_cases hget
          have hstart0 : start = 0 := by omega
          have hrest : x.rest = [] := by
            have hxl := HashString.length_bytes (h := x)
            have hsum := HashString.start_add_len (h := x)
            rw [← hx] at hxl
            unfold CStr.strnlen at hcheck
            refine List.length_eq_zero_iff.mp ?_
            omega
          refine ⟨x, hx, hrest, hl', hl' ▸ heven, by omega, hlen, ?_⟩
          rw [hstart0, List.drop_zero, hl'] at hbin
          exact hbin

theorem hexDigit_table {c : UInt8} (h : IsHexDigit c) :
    (hashString2BinTable c).toNat < 16 ∧
      hexDigit (hashString2BinTable c).toNat = foldCase c := by
  have hall : ∀ n < 256, IsHexDigit (UInt8.ofNat n) →
      (hashString2BinTable (UInt8.ofNat n)).toNat < 16 ∧
        hexDigit (hashString2BinTable (UInt8.ofNat n)).toNat = foldCase (UInt8.ofNat n) := by
    decide +kernel
  have hc := hall c.toNat c.toNat_lt
  rw [UInt8.ofNat_toNat] at hc
  exact hc h

theorem hexByte_table {a b : UInt8} (ha : IsHexDigit a) (hb : IsHexDigit b) :
    hexByte (hashString2BinTable a * 16 + hashString2BinTable b) = [foldCase a, foldCase b] := by
  obtain ⟨hal, ha⟩ := hexDigit_table ha
  obtain ⟨hbl, hb⟩ := hexDigit_table hb
  have hsum : (hashString2BinTable a * 16 + hashString2BinTable b).toNat
      = (hashString2BinTable a).toNat * 16 + (hashString2BinTable b).toNat := by
    rw [UInt8.toNat_add, UInt8.toNat_mul, show (16 : UInt8).toNat = 16 from rfl]
    omega
  unfold hexByte
  rw [hsum, show ((hashString2BinTable a).toNat * 16 + (hashString2BinTable b).toNat) / 16
      = (hashString2BinTable a).toNat by omega,
    show ((hashString2BinTable a).toNat * 16 + (hashString2BinTable b).toNat) % 16
      = (hashString2BinTable b).toNat by omega, ha, hb]

/-- **`hash_str_2_bin` は、16 進の数字を書かれたとおりに読む。** -/
theorem hexByte_hashStr2Bin : ∀ {digits bs : List UInt8}, (∀ c ∈ digits, IsHexDigit c) →
    hashStr2Bin digits = some bs → digits.map foldCase = bs.flatMap hexByte
  | [], bs, _, h => by
    cases h
    rfl
  | [_], bs, _, h => by cases h
  | a :: b :: cs, bs, hd, h => by
    rw [hashStr2Bin] at h
    obtain ⟨ds, hds, rfl⟩ := Option.map_eq_some_iff.mp h
    obtain ⟨ha, hd⟩ := List.forall_mem_cons.mp hd
    obtain ⟨hb, hd⟩ := List.forall_mem_cons.mp hd
    rw [List.flatMap_cons, hexByte_table ha hb, ← hexByte_hashStr2Bin hd hds]
    rfl

theorem TranslatedHash.digits {x : HashString} (h : TranslatedHash s params x)
    (hb : ¬ x.BlankOnly) : s.bytes = x.digits ++ [x.mark] ∧ x.len = x.digits.length := by
  have hblanks : x.blanks = [] := by
    by_contra hne
    have hd : x.digits ≠ [] := fun hd => hb ⟨hd, hne⟩
    have hstart : x.blanks.length = 0 := by
      rw [← h.start]
      exact (if_neg hd).symm
    exact hne (List.length_eq_zero_iff.mp hstart)
  refine ⟨?_, ?_⟩
  · rw [h.bytes, HashString.bytes, hblanks, h.rest]
    rfl
  · unfold HashString.len
    split
    next hd => rw [hblanks, hd]
    next hd => rfl

theorem TranslatedHash.not_blankOnly {x : HashString} (h : TranslatedHash s params x)
    (hb : ¬ BlankPrefix s) : ¬ x.BlankOnly := by
  intro hx
  have hlen : x.len = x.blanks.length := if_pos hx.1
  exact hb ⟨h.length, x, h.bytes, hx, by rw [← hlen, h.even], h.rest⟩

theorem foldCase_of_translated (hb : ¬ BlankPrefix s)
    (h : translateMkcParams ipStr s = .ok params) :
    (s.bytes.take params.hashStrLen).map foldCase = params.hash.flatMap hexByte ∧
      s.bytes.map foldCase = params.hash.flatMap hexByte ++ [120] := by
  obtain ⟨x, hx⟩ := translatedHash h
  obtain ⟨hbytes, hlen⟩ := hx.digits (hx.not_blankOnly hb)
  have htake : s.bytes.take x.len = x.digits := by
    rw [hbytes, hlen, List.take_left]
  have hbin := hx.hash
  rw [htake] at hbin
  have hfold := hexByte_hashStr2Bin x.digits_hex hbin
  have hmark : foldCase x.mark = 120 := by
    rcases x.mark_mark with h | h <;> rw [h] <;> rfl
  refine ⟨by rw [hx.len, htake, hfold], ?_⟩
  rw [hbytes, List.map_append, hfold]
  exact congrArg (_ ++ [·]) hmark

/-! ## 受けた文字列 -/

def ipStrSample : CStr := ⟨ascii "1.1.1.1", by decide⟩

theorem hashStr2Bin_of_even : ∀ {s : List UInt8}, s.length % 2 = 0 →
    ∃ bs, hashStr2Bin s = some bs
  | [], _ => ⟨[], rfl⟩
  | [_], h => by cases h
  | a :: b :: cs, h => by
    obtain ⟨bs, hbs⟩ := @hashStr2Bin_of_even cs (by simp only [List.length_cons] at h; omega)
    exact ⟨_, by rw [hashStr2Bin, hbs]; rfl⟩

theorem isHexDigit_of_mem_hexByte {bs : List UInt8} {c : UInt8} (h : c ∈ bs.flatMap hexByte) :
    IsHexDigit c := by
  have hall : ∀ n < 16, IsHexDigit (hexDigit n) := by decide
  obtain ⟨b, -, hc⟩ := List.mem_flatMap.mp h
  have hb : b.toNat < 256 := b.toNat_lt
  unfold hexByte at hc
  rcases List.mem_cons.mp hc with rfl | hc
  · exact hall _ (by omega)
  · rw [List.mem_singleton.mp hc]
    exact hall _ (by omega)

theorem translate_blankPrefix (h : BlankPrefix s) :
    ∃ params, translateMkcParams ipStrSample s = .ok params ∧
      ¬ (s.bytes.take params.hashStrLen).map foldCase = params.hash.flatMap hexByte := by
  obtain ⟨hl, x, hx, hb, heven, hrest⟩ := h
  have hxlen : x.len = x.blanks.length := if_pos hb.1
  have hstart : x.start = 0 := if_pos hb.1
  have hbytes : s.bytes = x.blanks ++ [x.mark] := by
    rw [hx, HashString.bytes, hb.1, hrest]
    rfl
  have hslen : s.bytes.length = x.blanks.length + 1 := by
    rw [hbytes, List.length_append]
    rfl
  have hget := getHashString_bytes x (by rw [hxlen, heven])
  obtain ⟨hash, hbin⟩ := hashStr2Bin_of_even heven
  have hstrnlen : s.strnlen (hashValueLength + 3) = s.bytes.length := by
    unfold CStr.strnlen
    omega
  have hip : getIpv4Addr (ipStrSample.bytes.take (ipStrSample.strnlen 20)) = some (7, 0x01010101) :=
    rfl
  refine ⟨{ ip := 0x01010101, hash, hashStrLen := x.blanks.length }, ?_, fun hfold => ?_⟩
  · unfold translateMkcParams
    dsimp only
    rw [if_neg (by decide), hip]
    dsimp only
    rw [hstrnlen, if_neg (by omega), List.take_length, hx, hget]
    dsimp only
    have hle : x.blanks.length ≤ hashValueLength * 2 := by
      have : hashValueLength + 1 ≤ hashValueLength * 2 := by decide
      omega
    rw [← hx, hstart, hxlen, if_neg (by omega), List.drop_zero, hbytes, List.take_left, hbin]
  · -- 空白は `%02x` の文字ではない。
    obtain ⟨c, blanks, hc⟩ := List.exists_cons_of_ne_nil hb.2
    have hblank : IsHashBlank c := x.blanks_blank c (by rw [hc]; exact List.mem_cons_self)
    have hfc : foldCase c = c := by
      rcases hblank with rfl | rfl | rfl | rfl <;> rfl
    have hmem : c ∈ (s.bytes.take x.blanks.length).map foldCase := by
      rw [hbytes, List.take_left, hc, List.map_cons, hfc]
      exact List.mem_cons_self
    rw [hfold] at hmem
    exact hblank.not_digit (isHexDigit_of_mem_hexByte hmem)

/-- **受けた文字列が書かれたとおりに読まれ、区別されるのは、空白だけの文字列でないときに限る。** -/
theorem prefixesExact_iff (s t : CStr) :
    PrefixesExact s t ↔ ¬ BlankPrefix s ∧ ¬ BlankPrefix t := by
  constructor
  · intro h
    refine ⟨fun hs => ?_, fun ht => ?_⟩
    · obtain ⟨params, hparams, hne⟩ := translate_blankPrefix hs
      exact hne (h.decode s (Or.inl rfl) _ _ hparams)
    · obtain ⟨params, hparams, hne⟩ := translate_blankPrefix ht
      exact hne (h.decode t (Or.inr rfl) _ _ hparams)
  · rintro ⟨hs, ht⟩
    refine ⟨fun u hu ipStr params hp => ?_, fun ipStr params ipStr' params' hp hp' hne heq => ?_⟩
    · rcases hu with rfl | rfl
      · exact (foldCase_of_translated hs hp).1
      · exact (foldCase_of_translated ht hp).1
    · refine hne ?_
      rw [(foldCase_of_translated hs hp).2, (foldCase_of_translated ht hp').2,
        (Prod.mk.inj heq).2]

end

/--
**`get_hash_string` と `range_map_add_node` が 16 進の数字の prefix だけを受けるのは、偶数個の空白と `x` の
文字列でないときに限る。** どの buffer についても返す領域は偶数個の数字で `x` が続き、受けた二つの
`hash_string` は書かれたとおりに読まれて、大文字と小文字の他に違えば違う長さか prefix になる。
-/
theorem hash_prefix_exact_iff (buf : List UInt8) (s t : CStr) :
    (HashExact buf ↔ ¬ BlankMark buf) ∧
      (PrefixesExact s t ↔ ¬ BlankPrefix s ∧ ¬ BlankPrefix t) :=
  ⟨hashExact_iff buf, prefixesExact_iff s t⟩

/-- `"  x"` の領域は空白二つで、`"00x"` と同じ prefix になる。 -/
theorem blank_hash_prefix_accepted :
    getHashString (ascii "  x") = some (3, 0, 2) ∧ ¬ HashExact (ascii "  x") ∧
      ((translateMkcParams ipStrSample ⟨ascii "  x", by decide⟩).map fun p =>
          (p.hash.length, p.hash)) = .ok (1, [0]) ∧
      ((translateMkcParams ipStrSample ⟨ascii "00x", by decide⟩).map fun p =>
          (p.hash.length, p.hash)) = .ok (1, [0]) := by
  have hget : getHashString (ascii "  x") = some (3, 0, 2) := rfl
  refine ⟨hget, fun h => ?_, rfl, rfl⟩
  exact absurd ((h _ _ _ hget).digits 32 (by decide)) (by decide)

end Esq
