import Mathlib.Data.List.Nodup
import Mathlib.Data.List.Chain

/-!
# 輪の中の区間

輪の隣を `next` で表す。区間は、隣どうしが並んだ、重なりのない列である。
末尾で広がり、先頭で縮む。先頭を探すのは、決まった回数だけ隣へ進む `scanFrom` である。
-/

namespace Infra

variable {α β : Type*}

/-- `p` を満たすものを、`a` から隣へ `n` 個まで探す。 -/
def scanFrom (next : α → α) (p : α → Bool) : Nat → α → Option α
  | 0, _ => none
  | n + 1, a => if p a then some a else scanFrom next p n (next a)

structure RingWindow (next : α → α) (w : List α) : Prop where
  /-- 隣どうしが並ぶ -/
  chain : w.IsChain fun a b => b = next a
  /-- 一周しない -/
  nodup : w.Nodup

section

variable {next : α → α} {p : α → Bool} {w l : List α} {a b : α} {n : Nat}

theorem scanFrom_found (h : p a = true) : scanFrom next p (n + 1) a = some a := by
  rw [scanFrom, if_pos h]

theorem scanFrom_skip (h : p a = false) :
    scanFrom next p (n + 1) a = scanFrom next p n (next a) := by
  rw [scanFrom, if_neg (by simp [h])]

theorem scanFrom_eq_none (h : ∀ a, p a = false) : scanFrom next p n a = none := by
  induction n generalizing a with
  | zero => rfl
  | succ n ih => rw [scanFrom_skip (h a), ih]

theorem RingWindow.singleton (next : α → α) (a : α) : RingWindow next [a] :=
  ⟨List.isChain_singleton a, List.nodup_singleton a⟩

theorem RingWindow.push (h : RingWindow next (l ++ [a])) (ha : next a ∉ l ++ [a]) :
    RingWindow next (l ++ [a] ++ [next a]) := by
  refine ⟨?_, List.nodup_append.mpr ⟨h.nodup, List.nodup_singleton _, ?_⟩⟩
  · refine List.isChain_append.mpr ⟨h.chain, List.isChain_singleton _, ?_⟩
    intro x hx y hy
    simp only [List.getLast?_append, List.getLast?_singleton, Option.some_or,
      Option.mem_def, Option.some.injEq] at hx
    simp only [List.head?_cons, Option.mem_def, Option.some.injEq] at hy
    rw [← hx, ← hy]
  · intro x hx y hy
    rw [List.mem_singleton] at hy
    rintro rfl
    exact ha (hy ▸ hx)

theorem RingWindow.pop (h : RingWindow next (a :: w)) : RingWindow next w :=
  ⟨h.chain.tail, h.nodup.of_cons⟩

theorem RingWindow.second (h : RingWindow next (a :: b :: w)) : b = next a :=
  (List.isChain_cons_cons.mp h.chain).1

theorem RingWindow.next_ne_head (h : RingWindow next (a :: w)) {x : α}
    (hx : x ∈ (a :: w).dropLast) : next x ≠ a := by
  obtain ⟨u, v, huv⟩ := List.append_of_mem hx
  have hne : a :: w ≠ [] := List.cons_ne_nil a w
  have hw : a :: w = u ++ x :: (v ++ [(a :: w).getLast hne]) := by
    rw [← List.cons_append, ← List.append_assoc, ← huv, List.dropLast_append_getLast hne]
  have hchain := hw ▸ h.chain
  obtain ⟨y, t, ht⟩ : ∃ y t, v ++ [(a :: w).getLast hne] = y :: t :=
    List.exists_cons_of_ne_nil (by simp)
  rw [ht] at hw hchain
  have hy : y = next x := (List.isChain_cons_cons.mp (List.isChain_append.mp hchain).2.1).1
  have hnd := hw ▸ h.nodup
  intro he
  -- 先頭と同じものが、先頭より後ろにもう一度現れてしまう
  rw [← hy] at he
  subst he
  cases u with
  | nil =>
    rw [List.nil_append, List.cons.injEq] at hw
    rw [hw.1] at hnd
    simp at hnd
  | cons c u =>
    rw [List.cons_append, List.cons.injEq] at hw
    rw [← hw.1] at hnd
    simp at hnd

variable [DecidableEq α] {f : α → List β} {s : List β}

theorem flatMap_update_of_notMem (h : a ∉ l) :
    l.flatMap (Function.update f a s) = l.flatMap f := by
  refine List.flatMap_congr fun x hx => ?_
  rw [Function.update_of_ne]
  rintro rfl
  exact h hx

theorem flatMap_update_last (h : (l ++ [a]).Nodup) :
    (l ++ [a]).flatMap (Function.update f a (f a ++ s)) = (l ++ [a]).flatMap f ++ s := by
  have ha : a ∉ l := by
    intro hm
    exact (List.nodup_append.mp h).2.2 a hm a (List.mem_singleton_self a) rfl
  rw [List.flatMap_append, List.flatMap_append, flatMap_update_of_notMem ha]
  simp

end

end Infra
