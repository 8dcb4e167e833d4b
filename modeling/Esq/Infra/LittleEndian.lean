import Mathlib.Data.Int.ModEq
import Mathlib.Data.UInt

/-!
# little endian の整数

32 bit の `int` を並べた構造体と byte の列。読み戻すと、32 bit に収まる値は元に戻る。
-/

namespace Infra

/-! ## 自然数 -/

def leBytes : Nat → Nat → List UInt8
  | 0, _ => []
  | w + 1, n => UInt8.ofNat (n % 256) :: leBytes w (n / 256)

def leNat : List UInt8 → Nat
  | [] => 0
  | b :: bs => b.toNat + 256 * leNat bs

@[simp] theorem length_leBytes : ∀ w n : Nat, (leBytes w n).length = w
  | 0, _ => rfl
  | w + 1, n => congrArg Nat.succ (length_leBytes w (n / 256))

theorem leNat_leBytes : ∀ w n : Nat, leNat (leBytes w n) = n % 256 ^ w
  | 0, n => by simp [leBytes, leNat, Nat.mod_one]
  | w + 1, n => by
    have hb : (UInt8.ofNat (n % 256)).toNat = n % 256 := by simp
    rw [leBytes, leNat, hb, leNat_leBytes w (n / 256), Nat.pow_succ', Nat.mod_mul]

/-! ## 32 bit の整数 -/

def toInt32 (n : Int) : Int := Int.bmod n (2 ^ 32)

theorem toInt32_of_range {n : Int} (hl : -2 ^ 31 ≤ n) (hu : n < 2 ^ 31) : toInt32 n = n := by
  refine Int.bmod_eq_of_le ?_ ?_ <;> omega

theorem toInt32_emod (n : Int) : toInt32 (n % 2 ^ 32) = toInt32 n :=
  Int.emod_bmod n (2 ^ 32)

theorem dvd_of_toInt32_sub {x y : Int} (h : toInt32 (x - y) = 0) : (2 ^ 32 : Int) ∣ x - y :=
  Int.dvd_of_bmod_eq_zero h

theorem eq_of_toInt32_sub {x y : Int} (hd : (2 ^ 32 : Int) ∣ x - y) (h1 : x - y < 2 ^ 32)
    (h2 : -2 ^ 32 < x - y) : x = y := by
  obtain ⟨k, hk⟩ := hd
  omega

theorem toInt32_bounds (x : Int) : -2 ^ 31 ≤ toInt32 x ∧ toInt32 x < 2 ^ 31 := by
  have hl := Int.le_bmod (x := x) (m := 2 ^ 32) (by decide)
  have hu := Int.bmod_lt (x := x) (m := 2 ^ 32) (by decide)
  unfold toInt32
  omega

theorem toInt32_eq (n : Int) : toInt32 n = (n + 2 ^ 31) % 2 ^ 32 - 2 ^ 31 := by
  unfold toInt32
  rw [Int.bmod_def]
  split <;> omega

def intBytes (n : Int) : List UInt8 := leBytes 4 (n % 2 ^ 32).toNat

def intOfBytes (bs : List UInt8) : Int := toInt32 (leNat bs)

@[simp] theorem length_intBytes (n : Int) : (intBytes n).length = 4 := length_leBytes ..

theorem intOfBytes_intBytes (n : Int) : intOfBytes (intBytes n) = toInt32 n := by
  have hpos : 0 ≤ n % 2 ^ 32 := Int.emod_nonneg _ (by decide)
  have hlt : n % 2 ^ 32 < 2 ^ 32 := Int.emod_lt_of_pos _ (by decide)
  have hmod : (n % 2 ^ 32).toNat % 256 ^ 4 = (n % 2 ^ 32).toNat := Nat.mod_eq_of_lt (by omega)
  unfold intOfBytes intBytes
  rw [leNat_leBytes, hmod, Int.toNat_of_nonneg hpos, toInt32_emod]

/-! ## `int` を並べた構造体 -/

def intAt (buf : List UInt8) (i : Nat) : Int := intOfBytes ((buf.drop (4 * i)).take 4)

def structBytes (ns : List Int) : List UInt8 := ns.flatMap intBytes

@[simp] theorem length_structBytes : ∀ ns : List Int, (structBytes ns).length = 4 * ns.length
  | [] => rfl
  | n :: ns => by
    have ih := length_structBytes ns
    unfold structBytes at ih ⊢
    rw [List.flatMap_cons, List.length_append, length_intBytes, ih, List.length_cons]
    omega

/-- **並べた `int` は、その位置から読み戻せる。** -/
theorem intAt_structBytes : ∀ (ns : List Int) (rest : List UInt8) (i : Nat) (h : i < ns.length),
    intAt (structBytes ns ++ rest) i = toInt32 (ns.get ⟨i, h⟩)
  | n :: ns, rest, 0, _ => by
    have htake : ((structBytes (n :: ns) ++ rest).drop (4 * 0)).take 4 = intBytes n := by
      rw [structBytes, List.flatMap_cons, List.append_assoc, Nat.mul_zero, List.drop_zero]
      exact List.take_left' (length_intBytes n)
    rw [intAt, htake, intOfBytes_intBytes]
    rfl
  | n :: ns, rest, i + 1, h => by
    have hdrop : (structBytes (n :: ns) ++ rest).drop (4 * (i + 1))
        = (structBytes ns ++ rest).drop (4 * i) := by
      rw [structBytes, List.flatMap_cons, List.append_assoc]
      have h4 : 4 * (i + 1) = (intBytes n).length + 4 * i := by
        rw [length_intBytes]
        omega
      rw [h4, List.drop_length_add_append]
      rfl
    have ih := intAt_structBytes ns rest i (Nat.lt_of_succ_lt_succ h)
    rw [intAt, hdrop]
    exact ih

end Infra
