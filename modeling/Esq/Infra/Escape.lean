import Mathlib.Data.List.Basic

/-!
# escape した列

`esc` の後の二つの要素で、一つの要素を書く符号化。`esc` そのものは、必ずこの形で書く。

* `Escaped` — `t` が `s` を書いた列であること。書き方は一つとは限らない
* `unescape` — 前から読む decode。読めるのは書いた列だけであり（`unescape_eq_some_iff`）、読めないのは、
  前から読んで着いた `esc` の後が対でないときである（`unescape_eq_none_iff`）
-/

namespace Infra

variable {α : Type*} {esc : α} {pair : α → α → Option α}

inductive Escaped (esc : α) (pair : α → α → Option α) : List α → List α → Prop where
  | nil : Escaped esc pair [] []
  | plain {c : α} {s t : List α} (hc : c ≠ esc) (h : Escaped esc pair s t) :
    Escaped esc pair (c :: s) (c :: t)
  | pair {a b c : α} {s t : List α} (hp : pair a b = some c) (h : Escaped esc pair s t) :
    Escaped esc pair (c :: s) (esc :: a :: b :: t)

def BadEscape (pair : α → α → Option α) (rest : List α) : Prop :=
  ∀ a b rest', rest = a :: b :: rest' → pair a b = none

section

variable {s t : List α} {c : α}

theorem Escaped.length_le (h : Escaped esc pair s t) : s.length ≤ t.length := by
  induction h with
  | nil => exact Nat.le_refl _
  | plain _ _ ih => exact Nat.succ_le_succ ih
  | pair _ _ ih =>
    simp only [List.length_cons]
    omega

theorem escaped_self (h : esc ∉ s) : Escaped esc pair s s := by
  induction s with
  | nil => exact .nil
  | cons c s ih =>
    obtain ⟨hc, hs⟩ := not_or.mp (mt List.mem_cons.mpr h)
    exact .plain (Ne.symm hc) (ih hs)

variable [DecidableEq α]

def unescape (esc : α) (pair : α → α → Option α) : List α → Option (List α)
  | [] => some []
  | c :: t =>
    if c = esc then
      match t with
      | a :: b :: t =>
        match pair a b with
        | some c => (unescape esc pair t).map (c :: ·)
        | none => none
      | _ => none
    else (unescape esc pair t).map (c :: ·)

theorem unescape_cons (hc : c ≠ esc) (t : List α) :
    unescape esc pair (c :: t) = (unescape esc pair t).map (c :: ·) := by
  rw [unescape.eq_def]
  simp only [if_neg hc]

theorem unescape_pair {a b : α} (hp : pair a b = some c) (t : List α) :
    unescape esc pair (esc :: a :: b :: t) = (unescape esc pair t).map (c :: ·) := by
  rw [unescape.eq_def]
  simp only [if_pos, hp]

theorem unescape_bad {rest : List α} (hbad : BadEscape pair rest) :
    unescape esc pair (esc :: rest) = none := by
  rw [unescape.eq_def]
  match rest with
  | [] => simp only [if_pos]
  | [_] => simp only [if_pos]
  | a :: b :: rest => simp only [if_pos, hbad a b rest rfl]

variable (esc pair) in
theorem unescape_cases (t : List α) : t = [] ∨ (∃ c t', t = c :: t' ∧ c ≠ esc) ∨
    (∃ a b c t', t = esc :: a :: b :: t' ∧ pair a b = some c) ∨
    ∃ rest, t = esc :: rest ∧ BadEscape pair rest := by
  match t with
  | [] => exact .inl rfl
  | c :: t =>
    by_cases hc : c = esc
    · subst hc
      match t with
      | [] => exact .inr (.inr (.inr ⟨_, rfl, fun _ _ _ he => by cases he⟩))
      | [a] => exact .inr (.inr (.inr ⟨_, rfl, fun _ _ _ he => by cases he⟩))
      | a :: b :: t =>
        cases hp : pair a b with
        | some d => exact .inr (.inr (.inl ⟨a, b, d, t, rfl, hp⟩))
        | none =>
          refine .inr (.inr (.inr ⟨_, rfl, ?_⟩))
          rintro _ _ _ ⟨⟩
          exact hp
    · exact .inr (.inl ⟨c, t, rfl, hc⟩)

theorem Escaped.unescape (h : Escaped esc pair s t) : Infra.unescape esc pair t = some s := by
  induction h with
  | nil => rfl
  | plain hc _ ih =>
    rw [unescape_cons hc, ih]
    rfl
  | pair hp _ ih =>
    rw [unescape_pair hp, ih]
    rfl

theorem unescape_eq_some_iff : unescape esc pair t = some s ↔ Escaped esc pair s t := by
  refine ⟨fun h => ?_, Escaped.unescape⟩
  induction hn : t.length using Nat.strongRecOn generalizing s t with
  | _ n ih =>
    rcases unescape_cases esc pair t with rfl | ⟨c, t, rfl, hc⟩ |
      ⟨a, b, c, t, rfl, hp⟩ | ⟨rest, rfl, hbad⟩
    · cases h
      exact .nil
    · rw [unescape_cons hc] at h
      obtain ⟨s, hs, rfl⟩ := Option.map_eq_some_iff.mp h
      exact .plain hc (ih t.length (by rw [← hn]; exact Nat.lt_succ_self _) hs rfl)
    · rw [unescape_pair hp] at h
      obtain ⟨s, hs, rfl⟩ := Option.map_eq_some_iff.mp h
      exact .pair hp (ih t.length (by rw [← hn]; simp only [List.length_cons]; omega) hs rfl)
    · rw [unescape_bad hbad] at h
      cases h

theorem Escaped.unescape_append (h : Escaped esc pair s t) (rest : List α) :
    Infra.unescape esc pair (t ++ rest) = (Infra.unescape esc pair rest).map (s ++ ·) := by
  induction h with
  | nil => simp
  | plain hc _ ih =>
    rw [List.cons_append, unescape_cons hc, ih, Option.map_map]
    rfl
  | pair hp _ ih =>
    rw [List.cons_append, List.cons_append, List.cons_append, unescape_pair hp, ih, Option.map_map]
    rfl

/-- **読めないのは、前から読んで着いた `esc` の後が対でないときである。** -/
theorem unescape_eq_none_iff : unescape esc pair t = none ↔
    ∃ pre s rest, t = pre ++ esc :: rest ∧ Escaped esc pair s pre ∧ BadEscape pair rest := by
  constructor
  · intro h
    induction hn : t.length using Nat.strongRecOn generalizing t with
    | _ n ih =>
      rcases unescape_cases esc pair t with rfl | ⟨c, t, rfl, hc⟩ |
        ⟨a, b, c, t, rfl, hp⟩ | ⟨rest, rfl, hbad⟩
      · cases h
      · rw [unescape_cons hc, Option.map_eq_none_iff] at h
        obtain ⟨pre, s, rest, rfl, hs, hbad⟩ :=
          ih t.length (by rw [← hn]; exact Nat.lt_succ_self _) h rfl
        exact ⟨c :: pre, c :: s, rest, rfl, .plain hc hs, hbad⟩
      · rw [unescape_pair hp, Option.map_eq_none_iff] at h
        obtain ⟨pre, s, rest, rfl, hs, hbad⟩ :=
          ih t.length (by rw [← hn]; simp only [List.length_cons]; omega) h rfl
        exact ⟨esc :: a :: b :: pre, c :: s, rest, rfl, .pair hp hs, hbad⟩
      · exact ⟨[], [], rest, rfl, .nil, hbad⟩
  · rintro ⟨pre, s, rest, rfl, hs, hbad⟩
    rw [hs.unescape_append, unescape_bad hbad]
    rfl

end

end Infra
