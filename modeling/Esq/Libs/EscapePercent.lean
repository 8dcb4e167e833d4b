import Esq.Infra.Escape
import Esq.Libs.Memory

/-!
# `%` の decode

`libs/escape-percent/escape-percent.c`。buffer をその場で書き換える。

一つの `%xx` を読むごとに一 byte を書くので、書く位置は読む位置を越えず、読むのはいつも元の byte である。
したがって結果は、元の byte を前から decode したものである（`escapePercentInPlace_unescape`）。
-/

namespace Esq

open Infra

/-- `epip_translate_table`。16 進の数字でなければ -1 である。 -/
def epipTranslateTable (t : UInt8) : Int :=
  if 48 ≤ t ∧ t ≤ 57 then t.toNat - 48
  else if 65 ≤ t ∧ t ≤ 70 then t.toNat - 55
  else if 97 ≤ t ∧ t ≤ 102 then t.toNat - 87
  else -1

/--
`escape_percent_in_place` の loop。最後の引数は `l - i` である。
-/
def escapePercentLoop (i w : Nat) (buf : List UInt8) : Nat → Int × List UInt8
  | 0 => (w, buf)
  | n + 1 =>
    let c := buf.getD i 0
    if c = 37 then
      match n with
      | m + 2 =>
        let k := epipTranslateTable (buf.getD (i + 1) 0)
        let k' := epipTranslateTable (buf.getD (i + 2) 0)
        if k = -1 then (-1, buf)
        else if k' = -1 then (-1, buf)
        else escapePercentLoop (i + 3) (w + 1) (buf.set w (UInt8.ofNat (k.toNat * 16 + k'.toNat))) m
      | _ => (-1, buf)
    else escapePercentLoop (i + 1) (w + 1) (buf.set w c) n

def escapePercentInPlace (buf : List UInt8) (l : Nat) : Int × List UInt8 :=
  escapePercentLoop 0 0 buf l

/-- 16 進の数字の値。大文字でも小文字でもよい。 -/
def hexValue? (c : UInt8) : Option Nat :=
  (List.range 16).find? fun k => k.digitChar.toNat = c.toNat ∨ k.digitChar.toUpper.toNat = c.toNat

def hexPair (a b : UInt8) : Option UInt8 := do
  let k ← hexValue? a
  let k' ← hexValue? b
  return UInt8.ofNat (k * 16 + k')

section

variable {orig s t buf rest u : List UInt8} {a b c : UInt8} {i m n w : Nat}

theorem escapePercentLoop_bound : ∀ (n : Nat) {i w : Nat} {buf buf' : List UInt8} {r : Int},
    escapePercentLoop i w buf n = (r, buf') → buf'.length = buf.length ∧ r ≤ w + n ∧ -1 ≤ r
  | 0, i, w, buf, buf', r, h => by
    obtain ⟨rfl, rfl⟩ := Prod.mk.inj h
    exact ⟨rfl, by omega, by omega⟩
  | n + 1, i, w, buf, buf', r, h => by
    unfold escapePercentLoop at h
    dsimp only at h
    split at h
    · split at h
      · next m =>
        split at h
        · obtain ⟨rfl, rfl⟩ := Prod.mk.inj h
          exact ⟨rfl, by omega, le_rfl⟩
        · split at h
          · obtain ⟨rfl, rfl⟩ := Prod.mk.inj h
            exact ⟨rfl, by omega, le_rfl⟩
          · obtain ⟨h1, h2, h3⟩ := escapePercentLoop_bound m h
            rw [List.length_set] at h1
            exact ⟨h1, by omega, h3⟩
      · obtain ⟨rfl, rfl⟩ := Prod.mk.inj h
        exact ⟨rfl, by omega, le_rfl⟩
    · obtain ⟨h1, h2, h3⟩ := escapePercentLoop_bound n h
      rw [List.length_set] at h1
      exact ⟨h1, by omega, h3⟩

theorem escapePercentInPlace_bound {buf buf' : List UInt8} {l : Nat} {r : Int}
    (h : escapePercentInPlace buf l = (r, buf')) : buf'.length = buf.length ∧ r ≤ l ∧ -1 ≤ r := by
  obtain ⟨h1, h2, h3⟩ := escapePercentLoop_bound l h
  exact ⟨h1, by omega, h3⟩

/-- 読み換えられない `%` は断る。 -/
example : (escapePercentInPlace [37, 50, 101, 37, 50, 70] 6).1 = 2 ∧
    (escapePercentInPlace [37, 50, 101, 37, 50, 70] 6).2.take 2 = [46, 47] ∧
    (escapePercentInPlace [97, 37, 50] 3).1 = -1 := by decide

theorem epipTranslateTable_eq (c : UInt8) :
    epipTranslateTable c = ((hexValue? c).map Int.ofNat).getD (-1) := by
  have hall : ∀ n < 256, epipTranslateTable (UInt8.ofNat n)
      = ((hexValue? (UInt8.ofNat n)).map Int.ofNat).getD (-1) := by decide +kernel
  have := hall c.toNat c.toNat_lt
  rwa [UInt8.ofNat_toNat] at this

theorem epipTranslateTable_eq_neg {c : UInt8} (h : hexValue? c = none) :
    epipTranslateTable c = -1 := by
  rw [epipTranslateTable_eq, h]
  rfl

theorem epipTranslateTable_eq_ofNat {c : UInt8} {k : Nat} (h : hexValue? c = some k) :
    epipTranslateTable c = k := by
  rw [epipTranslateTable_eq, h]
  rfl

theorem hexPair_eq_some_iff : hexPair a b = some c ↔
    ∃ k k', hexValue? a = some k ∧ hexValue? b = some k' ∧ UInt8.ofNat (k * 16 + k') = c := by
  unfold hexPair
  cases ha : hexValue? a with
  | none => simp
  | some k =>
    cases hb : hexValue? b with
    | none => simp
    | some k' => simp

theorem hexPair_eq_none_iff : hexPair a b = none ↔ hexValue? a = none ∨ hexValue? b = none := by
  unfold hexPair
  cases ha : hexValue? a with
  | none => simp
  | some k =>
    cases hb : hexValue? b with
    | none => simp
    | some k' => simp

/-! ## loop の一回 -/

theorem escapePercentLoop_plain (hget : buf.getD i 0 = c) (hc : c ≠ 37) :
    escapePercentLoop i w buf (n + 1) = escapePercentLoop (i + 1) (w + 1) (buf.set w c) n := by
  rw [escapePercentLoop.eq_def]
  simp only [hget, if_neg hc]

theorem escapePercentLoop_pair (hget : buf.getD i 0 = 37) (ha : buf.getD (i + 1) 0 = a)
    (hb : buf.getD (i + 2) 0 = b) (hp : hexPair a b = some c) :
    escapePercentLoop i w buf (n + 3) = escapePercentLoop (i + 3) (w + 1) (buf.set w c) n := by
  obtain ⟨k, k', hk, hk', rfl⟩ := hexPair_eq_some_iff.mp hp
  have hneg : ∀ j : Nat, (j : Int) ≠ -1 := fun j => by omega
  rw [escapePercentLoop.eq_def]
  simp only [hget, if_pos, ha, hb, epipTranslateTable_eq_ofNat hk, epipTranslateTable_eq_ofNat hk',
    if_neg (hneg _), Int.toNat_natCast]

theorem escapePercentLoop_bad (hget : buf.getD i 0 = 37) (ha : buf.getD (i + 1) 0 = a)
    (hb : buf.getD (i + 2) 0 = b) (hp : n < 2 ∨ hexPair a b = none) :
    escapePercentLoop i w buf (n + 1) = (-1, buf) := by
  rw [escapePercentLoop.eq_def]
  simp only [hget, if_pos]
  split
  next m =>
    rcases hexPair_eq_none_iff.mp (hp.resolve_left (by omega)) with hk | hk
    · rw [ha, epipTranslateTable_eq_neg hk, if_pos rfl]
    · rw [hb, epipTranslateTable_eq_neg hk, if_pos rfl, ite_self]
  next => rfl

/-! ## decode -/

theorem getD_of_drop (hdrop : orig.drop i = rest) (hu : u.length ≤ i) (k : Nat) :
    (u ++ orig.drop u.length).getD (i + k) 0 = rest.getD k 0 := by
  rw [getD_unwritten (by omega), ← hdrop, List.getD_eq_getElem?_getD, List.getD_eq_getElem?_getD,
    List.getElem?_drop]

theorem lt_of_drop_eq_cons (hdrop : orig.drop i = c :: rest) : i < orig.length := by
  by_contra hno
  rw [List.drop_eq_nil_of_le (by omega)] at hdrop
  cases hdrop

theorem escapePercentLoop_escaped (h : Escaped 37 hexPair s t) :
    ∀ {i : Nat} {u : List UInt8}, orig.drop i = t ++ rest → u.length ≤ i →
    escapePercentLoop i u.length (u ++ orig.drop u.length) (t.length + n)
      = escapePercentLoop (i + t.length) (u ++ s).length
          ((u ++ s) ++ orig.drop (u ++ s).length) n := by
  induction h with
  | nil =>
    intro i u _ _
    simp only [List.length_nil, Nat.zero_add, Nat.add_zero, List.append_nil]
  | @plain c s t hc _ ih =>
    intro i u hdrop hu
    have hi := lt_of_drop_eq_cons hdrop
    have hnext : orig.drop (i + 1) = t ++ rest := by
      rw [← List.drop_drop, hdrop]
      rfl
    have hlen : (u ++ [c]).length = u.length + 1 := List.length_append
    rw [show (c :: t).length + n = (t.length + n) + 1 by rw [List.length_cons]; omega,
      escapePercentLoop_plain (i := i) (c := c) (getD_of_drop hdrop hu 0) hc,
        set_unwritten (by omega), ← hlen,
      ih hnext (by omega), List.append_assoc, List.length_cons, Nat.add_assoc, Nat.add_comm 1]
    rfl
  | @pair a b c s t hp _ ih =>
    intro i u hdrop hu
    have hi := lt_of_drop_eq_cons hdrop
    have hnext : orig.drop (i + 3) = t ++ rest := by
      rw [← List.drop_drop, hdrop]
      rfl
    have hlen : (u ++ [c]).length = u.length + 1 := List.length_append
    have hfuel : (37 :: a :: b :: t).length + n = (t.length + n) + 3 := by
      simp only [List.length_cons]
      omega
    rw [hfuel, escapePercentLoop_pair (i := i) (a := a) (b := b) (getD_of_drop hdrop hu 0)
        (getD_of_drop hdrop hu 1) (getD_of_drop hdrop hu 2) hp, set_unwritten (by omega), ← hlen,
      ih hnext (by omega), List.append_assoc, Nat.add_assoc, Nat.add_comm 3]
    rfl

theorem escapePercentLoop_badEscape {post : List UInt8} (hbad : BadEscape hexPair post)
    (hdrop : orig.drop i = 37 :: post ++ rest) (hu : u.length ≤ i) :
    escapePercentLoop i u.length (u ++ orig.drop u.length) (post.length + 1)
      = (-1, u ++ orig.drop u.length) := by
  refine escapePercentLoop_bad (getD_of_drop hdrop hu 0) rfl rfl ?_
  rw [getD_of_drop hdrop hu 1, getD_of_drop hdrop hu 2]
  match post with
  | [] => exact .inl Nat.zero_lt_two
  | [_] => exact .inl Nat.one_lt_two
  | a :: b :: post => exact .inr (hbad a b post rfl)

theorem escapePercentInPlace_escaped (h : Escaped 37 hexPair s t) (rest : List UInt8) :
    escapePercentInPlace (t ++ rest) t.length
      = ((s.length : Int), s ++ (t ++ rest).drop s.length) :=
  escapePercentLoop_escaped (i := 0) (u := []) (n := 0) h rfl le_rfl

theorem escapePercentInPlace_unescape_none (h : unescape 37 hexPair t = none) (rest : List UInt8) :
    (escapePercentInPlace (t ++ rest) t.length).1 = -1 := by
  obtain ⟨pre, s, post, rfl, hpre, hbad⟩ := unescape_eq_none_iff.mp h
  unfold escapePercentInPlace
  have hdrop : ((pre ++ 37 :: post) ++ rest).drop 0 = pre ++ (37 :: post ++ rest) := by
    rw [List.drop_zero, List.append_assoc]
  have hlen := hpre.length_le
  have hpair : ((pre ++ 37 :: post) ++ rest).drop (0 + pre.length) = 37 :: post ++ rest := by
    rw [Nat.zero_add, List.append_assoc, List.drop_left]
  have hloop := escapePercentLoop_escaped (n := post.length + 1) hpre hdrop (u := []) le_rfl
  rw [List.length_append, List.length_cons]
  rw [List.length_nil, List.drop_zero, List.nil_append, List.nil_append] at hloop
  rw [hloop, escapePercentLoop_badEscape hbad hpair (by omega)]

/--
**断るのは、前から読んで着いた `%` の後に、長さの中で二つの 16 進の数字が続かないときである。断らなければ、元の
byte を decode したものとその長さであり、後ろは変わらない。したがって、`s` をどのように書いた列からも `s` に戻る。**
-/
theorem escapePercentInPlace_unescape (t rest : List UInt8) :
    ((escapePercentInPlace (t ++ rest) t.length).1 = -1 ↔ ∃ pre s post,
        t = pre ++ 37 :: post ∧ Escaped 37 hexPair s pre ∧ BadEscape hexPair post) ∧
      ((escapePercentInPlace (t ++ rest) t.length).1 = -1 ∨ ∃ s, unescape 37 hexPair t = some s ∧
        escapePercentInPlace (t ++ rest) t.length
          = ((s.length : Int), s ++ (t ++ rest).drop s.length)) ∧
      ∀ s, Escaped 37 hexPair s t → escapePercentInPlace (t ++ rest) t.length
        = ((s.length : Int), s ++ (t ++ rest).drop s.length) := by
  cases h : unescape 37 hexPair t with
  | none =>
    have hneg := escapePercentInPlace_unescape_none h rest
    refine ⟨iff_of_true hneg (unescape_eq_none_iff.mp h), .inl hneg, fun s hs => ?_⟩
    rw [hs.unescape] at h
    cases h
  | some s =>
    have hs := escapePercentInPlace_escaped (unescape_eq_some_iff.mp h) rest
    refine ⟨iff_of_false ?_ ?_, .inr ⟨s, rfl, hs⟩, fun s hs => escapePercentInPlace_escaped hs rest⟩
    · rw [hs]
      exact fun he => by omega
    · rw [← unescape_eq_none_iff, h]
      exact fun he => by cases he

/-- `%41b` は `Ab` に戻る。 -/
theorem escapePercentInPlace_unescape_letters :
    escapePercentInPlace ([37, 52, 49, 98] ++ [0]) 4 = (2, [65, 98] ++ [49, 98, 0]) :=
  (escapePercentInPlace_unescape [37, 52, 49, 98] [0]).2.2 [65, 98]
    (.pair (by decide) (.plain (by decide) .nil))

end

end Esq
