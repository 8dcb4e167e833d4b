import Mathlib.Data.List.Nodup
import Mathlib.Logic.Function.Basic

/-!
# ポインタで繋がれた列

`next` を一つ持つ cell の列を扱う。cell の型も `next` の表し方も問わない。

* `Seg next p xs q` — `p` から辿ると `xs` を順に通って `q` に着く
* `Linked next p xs` — `p` から辿ると `xs` を順に通って NULL に着く

NULL に着く列は有限で、同じ cell を二度通らない（`Linked.nodup`）。
C の `for (p = head; p; p = p->next)` は `walk`、
`while (s->next) s = s->next` は `seekLast` にあたり、
どちらも燃料が列の長さ以上あれば列そのものから決まる。
訪れた cell を移しながら進む loop は `walkSaved` にあたる。
-/

namespace Infra

variable {α : Type*} {next : α → Option α} {p q r : Option α} {x y : α} {xs ys : List α}

/-- `p` から `next` を辿ると `xs` を順に通って `q` に着く。 -/
def Seg (next : α → Option α) : Option α → List α → Option α → Prop
  | p, [], q => p = q
  | p, x :: xs, q => p = some x ∧ Seg next (next x) xs q

/-- `p` から `next` を辿ると `xs` を順に通って NULL に着く。 -/
def Linked (next : α → Option α) (p : Option α) (xs : List α) : Prop :=
  Seg next p xs none

@[simp] theorem seg_nil : Seg next p [] q ↔ p = q := Iff.rfl

@[simp] theorem seg_cons : Seg next p (x :: xs) q ↔ p = some x ∧ Seg next (next x) xs q := Iff.rfl

@[simp] theorem linked_nil : Linked next p [] ↔ p = none := Iff.rfl

@[simp] theorem linked_cons :
    Linked next p (x :: xs) ↔ p = some x ∧ Linked next (next x) xs := Iff.rfl

/-! ## 連結と分割 -/

theorem seg_append : Seg next p (xs ++ ys) q ↔ ∃ r, Seg next p xs r ∧ Seg next r ys q := by
  induction xs generalizing p with
  | nil => simp
  | cons x xs ih =>
    simp only [List.cons_append, seg_cons, ih]
    constructor
    · rintro ⟨hp, r, h1, h2⟩
      exact ⟨r, ⟨hp, h1⟩, h2⟩
    · rintro ⟨r, ⟨hp, h1⟩, h2⟩
      exact ⟨hp, r, h1, h2⟩

theorem linked_append :
    Linked next p (xs ++ ys) ↔ ∃ r, Seg next p xs r ∧ Linked next r ys := seg_append

theorem seg_append_singleton : Seg next p (xs ++ [x]) q ↔ Seg next p xs (some x) ∧ next x = q := by
  rw [seg_append]
  constructor
  · rintro ⟨r, h1, rfl, h2⟩
    exact ⟨h1, h2⟩
  · rintro ⟨h1, h2⟩
    exact ⟨some x, h1, rfl, h2⟩

theorem Linked.next_eq (h : Linked next p (xs ++ x :: ys)) : next x = ys.head? := by
  obtain ⟨r, -, -, h⟩ := linked_append.mp h
  cases ys with
  | nil => exact h
  | cons y ys => exact h.1

theorem Linked.head_eq (h : Linked next p xs) : p = xs.head? := by
  cases xs with
  | nil => exact h
  | cons x xs => exact h.1

theorem Linked.eq_none_iff (h : Linked next p xs) : p = none ↔ xs = [] := by
  rw [h.head_eq, List.head?_eq_none_iff]

theorem Seg.next_mem : ∀ {xs : List α} {p : Option α}, Seg next p xs q → x ∈ xs →
    next x = some y → y ∈ xs ∨ q = some y
  | z :: zs, p, h, hx, hy => by
    rcases List.mem_cons.mp hx with rfl | hx
    · cases zs with
      | nil => exact Or.inr (h.2.symm.trans hy)
      | cons w ws =>
        have := h.2.1
        rw [hy] at this
        cases this
        exact Or.inl (by simp)
    · rcases h.2.next_mem hx hy with hm | hm
      · exact Or.inl (List.mem_cons_of_mem z hm)
      · exact Or.inr hm

/-! ## 一意性と非循環 -/

theorem Linked.unique : ∀ {xs ys : List α} {p : Option α},
    Linked next p xs → Linked next p ys → xs = ys
  | [], [], _, _, _ => rfl
  | [], y :: ys, p, h1, h2 => by
    rw [linked_nil] at h1
    rw [linked_cons, h1] at h2
    exact absurd h2.1 (by simp)
  | x :: xs, [], p, h1, h2 => by
    rw [linked_nil] at h2
    rw [linked_cons, h2] at h1
    exact absurd h1.1 (by simp)
  | x :: xs, y :: ys, p, h1, h2 => by
    obtain ⟨rfl, h1⟩ := h1
    obtain ⟨he, h2⟩ := h2
    cases he
    rw [Linked.unique h1 h2]

/--
**NULL に着く列は同じ cell を二度通らない。**

`x` を二度通るなら、`x` から先の列が自分自身の真の後半に等しくなる。
-/
theorem Linked.nodup : ∀ {xs : List α} {p : Option α}, Linked next p xs → xs.Nodup
  | [], _, _ => List.nodup_nil
  | x :: xs, p, h => by
    refine List.nodup_cons.mpr ⟨fun hx => ?_, Linked.nodup h.2⟩
    obtain ⟨as, bs, rfl⟩ := List.append_of_mem hx
    obtain ⟨r, -, rfl, htail⟩ := linked_append.mp h.2
    have hlen := congrArg List.length (Linked.unique h.2 htail)
    simp only [List.length_append, List.length_cons] at hlen
    omega

/-! ## frame -/

theorem Seg.congr {next' : α → Option α} : ∀ {xs : List α} {p : Option α},
    Seg next p xs q → (∀ x ∈ xs, next' x = next x) → Seg next' p xs q
  | [], _, h, _ => h
  | x :: xs, _, h, hn => by
    refine ⟨h.1, ?_⟩
    rw [hn x List.mem_cons_self]
    exact h.2.congr fun y hy => hn y (List.mem_cons_of_mem _ hy)

theorem Linked.congr {next' : α → Option α} (h : Linked next p xs)
    (hn : ∀ x ∈ xs, next' x = next x) : Linked next' p xs := Seg.congr h hn

section Update

variable [DecidableEq α]

theorem Seg.update_of_notMem (h : Seg next p xs q) (hy : y ∉ xs) (r : Option α) :
    Seg (Function.update next y r) p xs q := by
  refine h.congr fun x hx => Function.update_of_ne ?_ _ _
  rintro rfl
  exact hy hx

theorem Linked.update_of_notMem (h : Linked next p xs) (hy : y ∉ xs) (r : Option α) :
    Linked (Function.update next y r) p xs := Seg.update_of_notMem h hy r

theorem Seg.update_last (h : Seg next p (xs ++ [x]) q) (hx : x ∉ xs) (r : Option α) :
    Seg (Function.update next x r) p (xs ++ [x]) r := by
  rw [seg_append_singleton] at h ⊢
  exact ⟨h.1.update_of_notMem hx r, Function.update_self ..⟩

theorem Linked.join (h : Linked next p (xs ++ [x])) (hq : Linked next q ys) (hxy : x ∉ ys) :
    Linked (Function.update next x q) p (xs ++ [x] ++ ys) := by
  have hx : x ∉ xs := by
    have := List.nodup_append.mp h.nodup
    exact fun hm => this.2.2 x hm x List.mem_cons_self rfl
  exact linked_append.mpr ⟨q, Seg.update_last h hx q, hq.update_of_notMem hxy q⟩

end Update

/-! ## C の走査 -/

/-- `for (p = head; p; p = p->next)` が通る cell の列。燃料が尽きたらそこで止まる。 -/
def walk (next : α → Option α) : Nat → Option α → List α
  | 0, _ => []
  | _ + 1, none => []
  | n + 1, some x => x :: walk next n (next x)

theorem Linked.walk_eq : ∀ {xs : List α} {n : Nat} {p : Option α},
    Linked next p xs → xs.length ≤ n → walk next n p = xs
  | [], 0, _, _, _ => rfl
  | [], n + 1, _, h, _ => by rw [linked_nil.mp h]; rfl
  | x :: xs, 0, _, _, hn => by simp at hn
  | x :: xs, n + 1, _, h, hn => by
    obtain ⟨rfl, h⟩ := h
    rw [walk, Linked.walk_eq h (by simpa using hn)]

def seekLast (next : α → Option α) : Nat → α → α
  | 0, s => s
  | n + 1, s => match next s with
    | none => s
    | some t => seekLast next n t

theorem seekLast_eq : ∀ (xs : List α) (n : Nat) (s : α),
    Linked next (some s) (xs ++ [x]) → xs.length ≤ n → seekLast next n s = x
  | [], 0, s, h, _ => Option.some.inj h.1
  | [], n + 1, s, h, _ => by
    obtain ⟨hs, h⟩ := h
    cases hs
    rw [seekLast, linked_nil.mp h]
  | y :: xs, 0, s, h, hn => by simp at hn
  | y :: xs, n + 1, s, h, hn => by
    obtain ⟨hs, h⟩ := h
    cases hs
    have hn' : xs.length ≤ n := by simpa using hn
    -- `y` の後ろにはまだ `xs ++ [x]` が続くので、`next y` は NULL でない
    obtain ⟨t, ht⟩ : ∃ t, next y = some t := by
      cases xs with
      | nil => exact ⟨x, h.1⟩
      | cons z zs => exact ⟨z, h.1⟩
    rw [ht] at h
    rw [seekLast, ht]
    exact seekLast_eq xs n t h hn'

theorem Linked.push [DecidableEq α] {s a : α} {n : Nat} (h : Linked next (some s) xs)
    (hn : xs.length ≤ n) (ha : next a = none) (hax : a ∉ xs) :
    seekLast next n s ∈ xs ∧
      Linked (Function.update next (seekLast next n s) (some a)) (some s) (xs ++ [a]) := by
  rcases List.eq_nil_or_concat xs with rfl | ⟨ys, x, rfl⟩
  · cases h
  · rw [List.concat_eq_append] at h hn hax ⊢
    have hlast : seekLast next n s = x := seekLast_eq ys n s h (by
      rw [List.length_append] at hn
      exact Nat.le_trans (Nat.le_add_right _ _) hn)
    rw [hlast]
    have hxa : x ∉ [a] := by
      rintro hx
      rw [List.mem_singleton] at hx
      exact hax (by simp [hx])
    exact ⟨by simp, h.join (q := some a) ⟨rfl, ha⟩ hxa⟩

/-- `for (p = head; p; p = p->next) { if (hit(p)) break; }` が止まる cell。 -/
def seekFirst (next : α → Option α) (hit : α → Bool) : Nat → Option α → Option α
  | 0, _ => none
  | _ + 1, none => none
  | n + 1, some x => if hit x then some x else seekFirst next hit n (next x)

theorem Linked.seekFirst_eq (hit : α → Bool) : ∀ {xs : List α} {n : Nat} {p : Option α},
    Linked next p xs → xs.length ≤ n → seekFirst next hit n p = xs.find? hit
  | [], 0, _, _, _ => rfl
  | [], n + 1, _, h, _ => by rw [linked_nil.mp h]; rfl
  | x :: xs, 0, _, _, hn => by simp at hn
  | x :: xs, n + 1, _, h, hn => by
    obtain ⟨rfl, h⟩ := h
    rw [seekFirst, List.find?_cons, Linked.seekFirst_eq hit h (by simpa using hn)]
    cases hit x <;> rfl

section SavedNext

variable {σ ε : Type*}

/--
`for (p = head; p; p = n) { n = p->next; visit(p); }`

`visit` は状態を書き換えるので、`next` も状態から読む。燃料が尽きたら `endless` を返す。
-/
def walkSaved (next : σ → α → Option α) (visit : σ → α → Except ε σ) (endless : ε) :
    Nat → Option α → σ → Except ε σ
  | _, none, s => .ok s
  | 0, some _, _ => .error endless
  | n + 1, some x, s => do
    let saved := next s x
    let s ← visit s x
    walkSaved next visit endless n saved s

/--
**これから訪れる列 `xs` についての不変量 `P` が一回の訪問で保たれるか、訪問が `Q` で止まるなら、
走査は `P` で終わるか `Q` で止まる。**

訪問は `x` より後ろを乱さなければよく、`x` をどこへ移してもよい。
-/
theorem walkSaved_cases {next : σ → α → Option α} {visit : σ → α → Except ε σ} (endless : ε)
    {P : σ → List α → Prop} {Q : ε → Prop}
    (hvisit : ∀ s x xs, P s (x :: xs) →
      next s x = xs.head? ∧ ((∃ t, visit s x = .ok t ∧ P t xs) ∨ ∃ e, visit s x = .error e ∧ Q e))
    {s : σ} {n : Nat} (h : P s xs) (hn : xs.length ≤ n) :
    (∃ t, walkSaved next visit endless n xs.head? s = .ok t ∧ P t []) ∨
      ∃ e, walkSaved next visit endless n xs.head? s = .error e ∧ Q e := by
  induction xs generalizing s n with
  | nil =>
    refine Or.inl ⟨s, ?_, h⟩
    cases n <;> rfl
  | cons x xs ih =>
    obtain ⟨n, rfl⟩ : ∃ k, n = k + 1 := ⟨n - 1, by simp only [List.length_cons] at hn; omega⟩
    obtain ⟨hnext, ⟨t, ht, hP⟩ | ⟨e, he, hQ⟩⟩ := hvisit s x xs h
    · rw [List.head?_cons, walkSaved, ht, hnext]
      exact ih hP (by simpa using hn)
    · refine Or.inr ⟨e, ?_, hQ⟩
      rw [List.head?_cons, walkSaved, he]
      rfl

/-- **これから訪れる列 `xs` についての不変量 `P` が一回の訪問で保たれるなら、走査は終わる。** -/
theorem walkSaved_eq_ok {next : σ → α → Option α} {visit : σ → α → Except ε σ} (endless : ε)
    {P : σ → List α → Prop}
    (hvisit : ∀ s x xs, P s (x :: xs) →
      next s x = xs.head? ∧ ∃ t, visit s x = .ok t ∧ P t xs) {s : σ} {n : Nat} (h : P s xs)
    (hn : xs.length ≤ n) : ∃ t, walkSaved next visit endless n xs.head? s = .ok t ∧ P t [] := by
  have hcases := walkSaved_cases endless (Q := fun _ => False)
    (fun s x xs hP => ⟨(hvisit s x xs hP).1, Or.inl (hvisit s x xs hP).2⟩) h hn
  rcases hcases with hok | ⟨_, _, hQ⟩
  · exact hok
  · exact hQ.elim

theorem walkSaved_invariant {next : σ → α → Option α} {visit : σ → α → Except ε σ} {endless : ε}
    {P : σ → Prop} (hvisit : ∀ s x t, P s → visit s x = .ok t → P t) {n : Nat} {s t : σ} (h : P s)
    (ht : walkSaved next visit endless n p s = .ok t) : P t := by
  induction n generalizing p s with
  | zero =>
    cases p with
    | none => cases ht; exact h
    | some x => cases ht
  | succ n ih =>
    cases p with
    | none => cases ht; exact h
    | some x =>
      rw [walkSaved] at ht
      cases hv : visit s x with
      | error e => rw [hv] at ht; cases ht
      | ok u =>
        rw [hv] at ht
        exact ih (hvisit s x u h hv) ht

theorem walkSaved_mono {next : σ → α → Option α} {visit : σ → α → Except ε σ} {endless : ε}
    {n k : Nat} {s t : σ} (h : walkSaved next visit endless n p s = .ok t) (hk : n ≤ k) :
    walkSaved next visit endless k p s = .ok t := by
  induction n generalizing k p s with
  | zero =>
    cases p with
    | none => cases k <;> exact h
    | some x => cases h
  | succ n ih =>
    obtain ⟨k, rfl⟩ : ∃ j, k = j + 1 := ⟨k - 1, by omega⟩
    cases p with
    | none => exact h
    | some x =>
      rw [walkSaved] at h ⊢
      cases hv : visit s x with
      | error e =>
        rw [hv] at h
        cases h
      | ok u =>
        rw [hv] at h
        exact ih h (by omega)

end SavedNext

section UpTo

variable {p : α → Bool} {xs ys : List α} {x : α}

/-- `p` が初めて成り立つ所まで。止まった走査が訪れた列である。 -/
def upTo (p : α → Bool) : List α → List α
  | [] => []
  | x :: xs => if p x then [x] else x :: upTo p xs

theorem upTo_append_of_forall (h : ∀ x ∈ xs, p x = false) :
    upTo p (xs ++ ys) = xs ++ upTo p ys := by
  induction xs with
  | nil => rfl
  | cons x xs ih =>
    rw [List.cons_append, upTo, h x List.mem_cons_self]
    exact congrArg (x :: ·) (ih fun y hy => h y (List.mem_cons_of_mem x hy))

theorem upTo_append_of_exists (h : ∃ x ∈ xs, p x = true) : upTo p (xs ++ ys) = upTo p xs := by
  induction xs with
  | nil => simp at h
  | cons x xs ih =>
    rw [List.cons_append, upTo, upTo]
    by_cases hx : p x = true
    · rw [if_pos hx, if_pos hx]
    · rw [if_neg hx, if_neg hx]
      obtain ⟨y, hy, hp⟩ := h
      rcases List.mem_cons.mp hy with rfl | hy
      · exact absurd hp hx
      · rw [ih ⟨y, hy, hp⟩]

theorem upTo_congr {q : α → Bool} (h : ∀ x ∈ xs, p x = q x) : upTo p xs = upTo q xs := by
  induction xs with
  | nil => rfl
  | cons x xs ih =>
    rw [upTo, upTo, h x List.mem_cons_self, ih fun y hy => h y (List.mem_cons_of_mem x hy)]

theorem upTo_subset (h : x ∈ upTo p xs) : x ∈ xs := by
  induction xs with
  | nil => exact h
  | cons y ys ih =>
    rw [upTo] at h
    split at h
    · rw [List.mem_singleton] at h
      exact h ▸ List.mem_cons_self
    · rcases List.mem_cons.mp h with rfl | h
      · exact List.mem_cons_self
      · exact List.mem_cons_of_mem y (ih h)

theorem mem_upTo_iff (hx : x ∉ xs) :
    x ∈ upTo p (xs ++ x :: ys) ↔ ∀ y ∈ xs, p y = false := by
  constructor
  · intro h y hy
    by_contra hp
    rw [upTo_append_of_exists ⟨y, hy, by simpa using hp⟩] at h
    exact hx (upTo_subset h)
  · intro h
    rw [upTo_append_of_forall h, upTo]
    split <;> simp

end UpTo

end Infra
