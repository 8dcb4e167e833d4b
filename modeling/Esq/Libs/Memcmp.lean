import Esq.Infra.SearchTree
import Esq.Libs.Sscanf

/-!
# 領域の比較

長さの等しい二つの領域の `memcmp`。0 になるのは領域が等しいときに限り、いつも順序になる。`strcmp` は、
終わりの NUL までの領域を比べる。
-/

namespace Esq

open Infra

def memcmp : List UInt8 → List UInt8 → Int
  | a :: as, b :: bs => if a = b then memcmp as bs else (a.toNat : Int) - b.toNat
  | _, _ => 0

theorem memcmp_eq_zero : ∀ {xs ys : List UInt8}, xs.length = ys.length →
    memcmp xs ys = 0 → xs = ys
  | [], [], _, _ => rfl
  | [], _ :: _, hl, _ => by simp at hl
  | _ :: _, [], hl, _ => by simp at hl
  | x :: xs, y :: ys, hl, h => by
    rw [memcmp] at h
    split at h
    · next hxy => rw [hxy, memcmp_eq_zero (Nat.succ.inj hl) h]
    · next hxy =>
      have : x.toNat = y.toNat := by omega
      exact absurd (UInt8.toNat_inj.mp this) hxy

theorem memcmp_self : ∀ xs : List UInt8, memcmp xs xs = 0
  | [] => rfl
  | x :: xs => by rw [memcmp, if_pos rfl, memcmp_self xs]

theorem memcmp_neg : ∀ xs ys : List UInt8, memcmp ys xs = - memcmp xs ys
  | [], [] => rfl
  | [], _ :: _ => rfl
  | _ :: _, [] => rfl
  | x :: xs, y :: ys => by
    rw [memcmp, memcmp]
    by_cases hxy : x = y
    · rw [if_pos hxy, if_pos hxy.symm, memcmp_neg xs ys]
    · rw [if_neg hxy, if_neg (Ne.symm hxy)]
      omega

theorem memcmp_trans : ∀ xs ys zs : List UInt8, memcmp xs ys < 0 → memcmp ys zs < 0 →
    memcmp xs zs < 0
  | [], _, _, h, _ => by
    rw [memcmp] at h
    · exact absurd h (lt_irrefl 0)
    · simp
  | _ :: _, [], _, h, _ => by
    rw [memcmp] at h
    · exact absurd h (lt_irrefl 0)
    · simp
  | _ :: _, _ :: _, [], _, h' => by
    rw [memcmp] at h'
    · exact absurd h' (lt_irrefl 0)
    · simp
  | x :: xs, y :: ys, z :: zs, h, h' => by
    rw [memcmp] at h h' ⊢
    by_cases hxy : x = y
    · subst hxy
      rw [if_pos rfl] at h
      by_cases hxz : x = z
      · rw [if_pos hxz] at h' ⊢
        exact memcmp_trans xs ys zs h h'
      · rw [if_neg hxz] at h' ⊢
        exact h'
    · rw [if_neg hxy] at h
      by_cases hyz : y = z
      · subst hyz
        rw [if_neg hxy]
        exact h
      · rw [if_neg hyz] at h'
        rw [if_neg (fun hxz : x = z => by subst hxz; omega)]
        omega

theorem orderedOn_memcmp {α : Type*} (f : α → List UInt8) (S : List α) :
    OrderedOn (fun a b => memcmp (f a) (f b)) S where
  irrefl a _ := by
    rw [memcmp_self]
    exact lt_irrefl 0
  symm a _ b _ h := by
    rw [memcmp_neg]
    omega
  trans a _ b _ c _ h h' := memcmp_trans _ _ _ h h'

def strcmp (a b : CStr) : Int := memcmp (a.bytes ++ [0]) (b.bytes ++ [0])

theorem strcmp_self (a : CStr) : strcmp a a = 0 := memcmp_self _

theorem memcmp_zero_eq_zero : ∀ {xs ys : List UInt8}, 0 ∉ xs → 0 ∉ ys →
    memcmp (xs ++ [0]) (ys ++ [0]) = 0 → xs = ys
  | [], [], _, _, _ => rfl
  | [], y :: ys, _, hy, h => by
    have hne : (0 : UInt8) ≠ y := fun he => hy (he ▸ List.mem_cons_self)
    rw [List.nil_append, List.cons_append, memcmp, if_neg hne] at h
    exact absurd (UInt8.toNat_inj.mp (by omega)) hne
  | x :: xs, [], hx, _, h => by
    have hne : x ≠ 0 := fun he => hx (he ▸ List.mem_cons_self)
    rw [List.nil_append, List.cons_append, memcmp, if_neg hne] at h
    exact absurd (UInt8.toNat_inj.mp (by omega)) hne
  | x :: xs, y :: ys, hx, hy, h => by
    rw [List.cons_append, List.cons_append, memcmp] at h
    split at h
    · next hxy =>
      rw [hxy, memcmp_zero_eq_zero (fun hm => hx (List.mem_cons_of_mem x hm))
        (fun hm => hy (List.mem_cons_of_mem y hm)) h]
    · next hxy => exact absurd (UInt8.toNat_inj.mp (by omega)) hxy

theorem strcmp_eq_zero {a b : CStr} : strcmp a b = 0 ↔ a = b := by
  constructor
  · intro h
    exact Subtype.ext (memcmp_zero_eq_zero a.property b.property h)
  · rintro rfl
    exact strcmp_self a

end Esq
