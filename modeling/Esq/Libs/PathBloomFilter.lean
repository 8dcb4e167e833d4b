import Esq.Basic
import Esq.Libs.Memory
import Mathlib.Data.UInt
import Mathlib.Logic.Function.Basic

/-!
# 経路の bloom filter

`libs/path-bloom-filter/path-bloom-filter.c`。

三つの hash のそれぞれについて、bitmap の一つの bit を立てる。bit の位置は hash の下位 3 bit のうち
下の 2 bit で決まるから、半分の bit は使われない。それでも、加えた経路は必ず見つかる。
-/

namespace Esq

/-! ## hash -/

def pathBloomHash0 (path : List UInt8) : UInt32 :=
  let hash := path.zipIdx.foldl (fun hash (b, i) =>
    let c := charToUInt b
    match i % 4 with
    | 0 => hash + c
    | 1 => hash + (c <<< 3)
    | 2 => hash + (c <<< 5)
    | _ => hash + (c <<< 8)) 0
  hash &&& 0xfff

def pathBloomHash1 (path : List UInt8) : UInt32 :=
  path.foldl (fun hash b => hash * 131 + charToUInt b) 0 &&& 0xfff

structure BloomHash2 where
  hash : UInt32 := 0
  k : Nat := 0
  last : UInt32 := 68

def BloomHash2.next (s : BloomHash2) (b : UInt8) (i : Nat) : BloomHash2 :=
  let c := charToUInt b
  let k := (s.k + i) % 8
  match k with
  | 0 => { s with k, hash := s.hash ^^^ c }
  | 1 => { k, hash := s.hash ^^^ ~~~(c <<< 2), last := c }
  | 2 => { s with k, hash := s.hash ^^^ ((c <<< 7) ^^^ s.last) }
  | 3 => { k, hash := s.hash ^^^ ~~~(c <<< 5), last := c }
  | 4 => { s with k, hash := s.hash ^^^ (c <<< 6) }
  | 5 => { k, hash := s.hash ^^^ ~~~(c <<< 3), last := c }
  | 6 => { s with k, hash := s.hash ^^^ (c <<< 1) }
  | _ => { s with k, hash := s.hash ^^^ ((c <<< 4) ^^^ s.last) }

def pathBloomHash2 (path : List UInt8) : UInt32 :=
  (path.zipIdx.foldl (fun (s : BloomHash2) (b, i) => s.next b i) {}).hash &&& 0xfff

/-! ## filter -/

abbrev BloomBitmap := Nat → UInt8

namespace BloomBitmap

def mask (hash : UInt32) : UInt8 := 1 <<< (hash &&& 3).toUInt8

def mark (m : BloomBitmap) (hash : UInt32) : BloomBitmap :=
  Function.update m (hash >>> 3).toNat (m (hash >>> 3).toNat ||| mask hash)

def has (m : BloomBitmap) (hash : UInt32) : Bool := m (hash >>> 3).toNat &&& mask hash ≠ 0

end BloomBitmap

structure PathBloomFilter where
  bitmap0 : BloomBitmap
  bitmap1 : BloomBitmap
  bitmap2 : BloomBitmap

def pathBloomFilterNew : PathBloomFilter := ⟨fun _ => 0, fun _ => 0, fun _ => 0⟩

def PathBloomFilter.addPath (p : PathBloomFilter) (path : List UInt8) : PathBloomFilter where
  bitmap0 := p.bitmap0.mark (pathBloomHash0 path)
  bitmap1 := p.bitmap1.mark (pathBloomHash1 path)
  bitmap2 := p.bitmap2.mark (pathBloomHash2 path)

def PathBloomFilter.checkExist (p : PathBloomFilter) (path : List UInt8) : Bool :=
  p.bitmap0.has (pathBloomHash0 path) && p.bitmap1.has (pathBloomHash1 path) &&
    p.bitmap2.has (pathBloomHash2 path)

def pathBloomFilterAddPath2 (ptr : Option PathBloomFilter) (path : List UInt8) :
    Int × Option PathBloomFilter :=
  match ptr with
  | none => (esqErrorParam, none)
  | some p => if 0 < path.length then (0, some (p.addPath path)) else (esqErrorParam, some p)

def pathBloomFilterCheckExist2 (ptr : Option PathBloomFilter) (path : List UInt8) : Bool :=
  match ptr with
  | none => false
  | some p => decide (0 < path.length) && p.checkExist path

/-! ## 加えた経路は見つかる -/

section

variable {m : BloomBitmap} {h k : UInt32} {p : PathBloomFilter} {path other : List UInt8}

theorem BloomBitmap.low_cases (h : UInt32) : h &&& 3 = 0 ∨ h &&& 3 = 1 ∨ h &&& 3 = 2 ∨ h &&& 3 = 3 := by
  have hlt : (h &&& 3).toNat ≤ 3 := by
    rw [UInt32.toNat_and]
    exact Nat.and_le_right
  simp only [← UInt32.toNat_inj]
  simp only [UInt32.toNat_ofNat]
  omega

theorem BloomBitmap.mask_ne_zero (h : UInt32) : mask h ≠ 0 := by
  unfold mask
  rcases low_cases h with he | he | he | he <;> rw [he] <;> decide

theorem or_and_ne_zero {a b m : UInt8} (h : a &&& m ≠ 0) : (a ||| b) &&& m ≠ 0 := by
  intro hz
  refine h (UInt8.toBitVec_inj.mp ?_)
  have hz := congrArg UInt8.toBitVec hz
  simp only [UInt8.toBitVec_and, UInt8.toBitVec_or, UInt8.toBitVec_zero] at hz ⊢
  ext i hi
  have hbit := congrArg (fun x => x.getLsbD i) hz
  simp only [BitVec.getLsbD_and, BitVec.getLsbD_or, BitVec.getLsbD_zero] at hbit
  rw [← BitVec.getLsbD_eq_getElem, ← BitVec.getLsbD_eq_getElem, BitVec.getLsbD_and,
    BitVec.getLsbD_zero]
  grind

theorem BloomBitmap.has_iff : m.has h = true ↔ m (h >>> 3).toNat &&& mask h ≠ 0 :=
  decide_eq_true_iff

theorem BloomBitmap.has_mark (hk : m.has k = true) : (m.mark h).has k = true := by
  rw [has_iff] at hk ⊢
  unfold mark
  by_cases he : (k >>> 3).toNat = (h >>> 3).toNat
  · rw [he, Function.update_self]
    rw [he] at hk
    exact or_and_ne_zero hk
  · rw [Function.update_of_ne he]
    exact hk

theorem BloomBitmap.has_mark_self : (m.mark h).has h = true := by
  rw [has_iff]
  unfold mark
  rw [Function.update_self, UInt8.or_comm]
  refine or_and_ne_zero ?_
  rw [UInt8.and_self]
  exact mask_ne_zero h

theorem PathBloomFilter.checkExist_addPath_self : (p.addPath path).checkExist path = true := by
  simp only [checkExist, addPath, BloomBitmap.has_mark_self, Bool.and_self]

theorem PathBloomFilter.checkExist_addPath (h : p.checkExist other = true) :
    (p.addPath path).checkExist other = true := by
  simp only [checkExist, Bool.and_eq_true] at h ⊢
  exact ⟨⟨BloomBitmap.has_mark h.1.1, BloomBitmap.has_mark h.1.2⟩, BloomBitmap.has_mark h.2⟩

/-! ## 見つからない経路 -/

theorem BloomBitmap.parity_of_mask (hk : mask h &&& mask k ≠ 0) : h.toNat % 2 = k.toNat % 2 := by
  have hlow : ∀ x : UInt32, x.toNat % 2 = (x &&& 3).toNat % 2 := by
    intro x
    rw [UInt32.toNat_and]
    show _ = (_ &&& (2 ^ 2 - 1)) % 2
    rw [Nat.and_two_pow_sub_one_eq_mod]
    omega
  rw [hlow h, hlow k]
  unfold mask at hk
  rcases low_cases h with h1 | h1 | h1 | h1 <;> rcases low_cases k with h2 | h2 | h2 | h2 <;>
    rw [h1, h2] at hk ⊢ <;> revert hk <;> decide

theorem BloomBitmap.parity_of_has (hk : has (mark (fun _ => 0) h) k = true) :
    h.toNat % 2 = k.toNat % 2 := by
  rw [has_iff] at hk
  unfold mark at hk
  by_cases he : (k >>> 3).toNat = (h >>> 3).toNat
  · rw [he, Function.update_self, UInt8.zero_or] at hk
    exact parity_of_mask hk
  · rw [Function.update_of_ne he] at hk
    exact absurd UInt8.zero_and hk

theorem charToUInt_parity (b : UInt8) : (charToUInt b).toNat % 2 = b.toNat % 2 := by
  have h : ∀ n : Fin 256, (charToUInt (UInt8.ofFin n)).toNat % 2 = (UInt8.ofFin n).toNat % 2 := by
    decide +kernel
  exact h b.toFin

theorem foldl_hash1_parity : ∀ (l : List UInt8) (h : UInt32),
    (l.foldl (fun hash b => hash * 131 + charToUInt b) h).toNat % 2
      = (h.toNat + (l.map UInt8.toNat).sum) % 2
  | [], h => by simp
  | b :: l, h => by
    have hb := charToUInt_parity b
    rw [List.foldl_cons, foldl_hash1_parity l, List.map_cons, List.sum_cons, UInt32.toNat_add,
      UInt32.toNat_mul]
    simp only [UInt32.toNat_ofNat]
    omega

theorem pathBloomHash1_parity (path : List UInt8) :
    (pathBloomHash1 path).toNat % 2 = (path.map UInt8.toNat).sum % 2 := by
  have h := foldl_hash1_parity path 0
  rw [UInt32.toNat_zero, Nat.zero_add] at h
  rw [← h]
  unfold pathBloomHash1
  rw [UInt32.toNat_and]
  show (_ &&& (2 ^ 12 - 1)) % 2 = _
  rw [Nat.and_two_pow_sub_one_eq_mod]
  omega

/-- **byte の和の偶奇が違う経路は、一つだけ加えた filter では見つからない。** -/
theorem PathBloomFilter.parity_of_checkExist
    (h : (pathBloomFilterNew.addPath path).checkExist other = true) :
    (path.map UInt8.toNat).sum % 2 = (other.map UInt8.toNat).sum % 2 := by
  simp only [checkExist, addPath, Bool.and_eq_true] at h
  rw [← pathBloomHash1_parity, ← pathBloomHash1_parity]
  exact BloomBitmap.parity_of_has h.1.2

end

end Esq
