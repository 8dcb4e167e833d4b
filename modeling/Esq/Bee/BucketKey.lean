import Esq.Bee.Bucket
import Esq.Infra.LittleEndian
import Esq.Libs.Memcmp

/-!
# bucket の比較

`bee/bucket.c` の `bee_bucket_calculate_search_id` と `esq_bee_bucket_cmp`。

比較は `int` の差を返すので、32 bit で桁あふれした差の符号は大小と合わない。したがって推移的とは限らない。
それでも 0 になるのは、名前・hash の文字列・ip・port がどれも等しいときに限る。
-/

namespace Esq

open Infra

/-! ## search id -/

def charValue (c : UInt8) : Int := Int.bmod c.toNat (2 ^ 8)

def searchSum (value : UInt8 → Int) (s : List UInt8) : Int :=
  (s.zipIdx.map fun (c, i) => if i % 2 = 1 then value c else value c * 2 ^ 8).sum

/-- `bee_bucket_calculate_search_id`。`int` の和なので、途中で桁あふれしても 32 bit に収めた値は同じである。 -/
def beeBucketCalculateSearchId (p : BeeBucket) : Int :=
  toInt32 (searchSum charValue p.rangeMapName
    + searchSum (fun c => c.toNat) p.hashStr * 2 ^ 16)

/-! ## 比較 -/

def esqBeeBucketCmp (a b : BeeBucket) : Int :=
  if beeBucketCalculateSearchId a ≠ beeBucketCalculateSearchId b then
    toInt32 (beeBucketCalculateSearchId a - beeBucketCalculateSearchId b)
  else if a.hashStr.length ≠ b.hashStr.length then (a.hashStr.length : Int) - b.hashStr.length
  else if a.rangeMapName.length ≠ b.rangeMapName.length then
    (a.rangeMapName.length : Int) - b.rangeMapName.length
  else if a.ip ≠ b.ip then toInt32 (toInt32 a.ip - toInt32 b.ip)
  else if a.port ≠ b.port then toInt32 (a.port - b.port)
  else
    let r := memcmp a.hashStr b.hashStr
    if r ≠ 0 then r else memcmp a.rangeMapName b.rangeMapName

/-! ## 等しい key -/

def BeeBucket.key (b : BeeBucket) : List UInt8 × List UInt8 × Nat × Int :=
  (b.rangeMapName, b.hashStr, b.ip, b.port)

structure BeeBucket.Fits (b : BeeBucket) : Prop where
  ip : b.ip < 2 ^ 32
  port_ge : -2 ^ 31 ≤ b.port
  port_lt : b.port < 2 ^ 31

section

variable {a b a' b' : BeeBucket}

theorem BeeBucket.key_eq_iff : a.key = b.key ↔ a.rangeMapName = b.rangeMapName ∧
    a.hashStr = b.hashStr ∧ a.ip = b.ip ∧ a.port = b.port := by
  simp [key]

/-- **比較が 0 になるのは、key の等しいときに限る。** -/
theorem esqBeeBucketCmp_eq_zero (ha : a.Fits) (hb : b.Fits) (h : esqBeeBucketCmp a b = 0) :
    a.key = b.key := by
  unfold esqBeeBucketCmp at h
  simp only [ne_eq, ite_not] at h
  split at h
  · split at h
    · next hhash =>
      split at h
      · next hname =>
        split at h
        · next hip =>
          split at h
          · next hport =>
            split at h
            · next hr =>
              exact BeeBucket.key_eq_iff.mpr ⟨memcmp_eq_zero hname h, memcmp_eq_zero hhash hr, hip,
                hport⟩
            · next hr => exact absurd h hr
          · next hport =>
            -- `int` どうしの差は 2 ^ 32 に届かない
            have h1 := ha.port_ge
            have h2 := ha.port_lt
            have h3 := hb.port_ge
            have h4 := hb.port_lt
            exact absurd (eq_of_toInt32_sub (dvd_of_toInt32_sub h) (by omega) (by omega)) hport
        · next hip =>
          have h1 := ha.ip
          have h2 := hb.ip
          have hd : toInt32 ((a.ip : Int) - b.ip) = 0 := (Int.sub_bmod _ _ _).trans h
          have := eq_of_toInt32_sub (dvd_of_toInt32_sub hd) (by omega) (by omega)
          exact absurd (by exact_mod_cast this) hip
      · omega
    · omega
  · next hid =>
    have h1 := toInt32_bounds (searchSum charValue a.rangeMapName
      + searchSum (fun c => c.toNat) a.hashStr * 2 ^ 16)
    have h2 := toInt32_bounds (searchSum charValue b.rangeMapName
      + searchSum (fun c => c.toNat) b.hashStr * 2 ^ 16)
    unfold beeBucketCalculateSearchId at hid h
    exact absurd (eq_of_toInt32_sub (dvd_of_toInt32_sub h) (by omega) (by omega)) hid

theorem esqBeeBucketCmp_of_key_eq (h : a.key = b.key) : esqBeeBucketCmp a b = 0 := by
  obtain ⟨h1, h2, h3, h4⟩ := BeeBucket.key_eq_iff.mp h
  unfold esqBeeBucketCmp beeBucketCalculateSearchId
  simp [h1, h2, h3, h4, memcmp_self]

theorem esqBeeBucketCmp_congr (ha : a.key = a'.key) (hb : b.key = b'.key) :
    esqBeeBucketCmp a b = esqBeeBucketCmp a' b' := by
  obtain ⟨h1, h2, h3, h4⟩ := BeeBucket.key_eq_iff.mp ha
  obtain ⟨g1, g2, g3, g4⟩ := BeeBucket.key_eq_iff.mp hb
  unfold esqBeeBucketCmp beeBucketCalculateSearchId
  rw [h1, h2, h3, h4, g1, g2, g3, g4]

end

end Esq
