import Esq.Infra.Components
import Esq.Libs.Memory

/-!
# 安全な経路

`libs/utf8-to-unicode/utf8-to-unicode.c` の `get_code_from_utf8` と、それを使う
`libs/path-is-very-safe/path-is-very-safe.c` の `path_is_very_safe`。

受ける経路は `/` で始まらず、どの部分も `.` で始まらない（`noHidden_of_safe`）。
-/

namespace Esq

open Infra

/-! ## `get_code_from_utf8` -/

/-- 頭の byte から分かる、長さと code の上の桁。 -/
def utf8Lead (c : UInt32) : Option (Nat × UInt32) :=
  if c &&& 0x40 = 0 then none
  else if c &&& 0x20 = 0 then some (2, c &&& 0x1f)
  else if c &&& 0x10 = 0 then some (3, c &&& 0x0f)
  else if c &&& 0x08 = 0 then some (4, c &&& 0x07)
  else none

def utf8Follow : Nat → UInt32 → List UInt8 → Option UInt32
  | 0, code, _ => some code
  | _ + 1, _, [] => none
  | n + 1, code, b :: buf =>
    let c := charToUInt b
    if c &&& 0xc0 = 0x80 then utf8Follow n ((code <<< 6) + (c &&& 0x3f)) buf else none

/-- `get_code_from_utf8`。長さと code を返し、-1 のときは `none` である。 -/
def getCodeFromUtf8 : List UInt8 → Option (Nat × UInt32)
  | [] => none
  | b :: buf =>
    let c := charToUInt b
    if c &&& 0x80 = 0 then some (1, c)
    else match utf8Lead c with
      | none => none
      | some (l, code) =>
        if code = 0 then none else (utf8Follow (l - 1) code buf).map fun code => (l, code)

/-! ## `path_is_very_safe` -/

def safePathMax : Nat := 2048

def safeFilenameMax : Nat := 255

/-- `h2esq_path_safe_table`。`+`・`-`・数字・英字・`_` である。 -/
def h2esqPathSafeTable (c : UInt32) : Bool :=
  c == 43 || c == 45 || (48 ≤ c && c ≤ 57) || (65 ≤ c && c ≤ 90) || c == 95 || (97 ≤ c && c ≤ 122)

/-- `path_is_very_safe` の loop。`path` は `path + i` である。 -/
def pathIsVerySafeLoop : Nat → (i filenameLen : Nat) → (afterdot : Bool) → (path : List UInt8) → Bool
  | 0, _, _, _, _ => false
  | n + 1, i, filenameLen, afterdot, path =>
    if i ≥ safePathMax then false
    else if filenameLen ≥ safeFilenameMax then false
    else match getCodeFromUtf8 path with
      | none => false
      | some (r, c) =>
        if r ≠ 1 then pathIsVerySafeLoop n (i + r) (filenameLen + r) afterdot (path.drop r)
        else if h2esqPathSafeTable c then
          pathIsVerySafeLoop n (i + 1) (filenameLen + 1) false (path.drop 1)
        else if c = 47 then
          if afterdot then false else pathIsVerySafeLoop n (i + 1) 0 false (path.drop 1)
        else if c = 0 then !afterdot
        else if c = 46 then
          if filenameLen ≠ 0 then pathIsVerySafeLoop n (i + 1) (filenameLen + 1) true (path.drop 1)
          else false
        else false

/-- `path_is_very_safe`。`i` は一周ごとに進むので、`SAFE_PATH_MAX` 周より多くは回らない。 -/
def pathIsVerySafe (path : List UInt8) : Bool :=
  if path.head? = some 47 then false else pathIsVerySafeLoop safePathMax 0 0 false path

/-! ## `get_code_from_utf8` の読む byte -/

section

variable {b : UInt8} {buf path u : List UInt8} {r : Nat} {c : UInt32}

theorem charToUInt_high (b : UInt8) : charToUInt b &&& 0x80 = 0 ∧ charToUInt b = b.toUInt32 ∧ b < 128 ∨
    charToUInt b &&& 0x80 ≠ 0 ∧ 128 ≤ b := by
  have h : ∀ n : Fin 256, charToUInt (UInt8.ofFin n) &&& 0x80 = 0 ∧
      charToUInt (UInt8.ofFin n) = (UInt8.ofFin n).toUInt32 ∧ UInt8.ofFin n < 128 ∨
      charToUInt (UInt8.ofFin n) &&& 0x80 ≠ 0 ∧ 128 ≤ UInt8.ofFin n := by
    decide +kernel
  exact h b.toFin

theorem high_of_follow (b : UInt8) (h : charToUInt b &&& 0xc0 = 0x80) : 128 ≤ b := by
  have hall : ∀ n : Fin 256, charToUInt (UInt8.ofFin n) &&& 0xc0 = 0x80 → 128 ≤ UInt8.ofFin n := by
    decide +kernel
  exact hall b.toFin h

theorem utf8Follow_high : ∀ {n : Nat} {code : UInt32} {buf : List UInt8},
    utf8Follow n code buf = some c → n ≤ buf.length ∧ ∀ x ∈ buf.take n, 128 ≤ x
  | 0, _, _, _ => ⟨Nat.zero_le _, fun x hx => by rw [List.take_zero] at hx; cases hx⟩
  | n + 1, code, [], h => by cases h
  | n + 1, code, b :: buf, h => by
    unfold utf8Follow at h
    dsimp only at h
    split at h
    · next hb =>
      obtain ⟨hlen, hall⟩ := utf8Follow_high h
      refine ⟨Nat.succ_le_succ hlen, fun x hx => ?_⟩
      rw [List.take_succ_cons] at hx
      rcases List.mem_cons.mp hx with rfl | hx
      · exact high_of_follow x hb
      · exact hall x hx
    · cases h

theorem getCodeFromUtf8_cases (h : getCodeFromUtf8 buf = some (r, c)) :
    (∃ b rest, buf = b :: rest ∧ r = 1 ∧ c = b.toUInt32 ∧ b < 128) ∨
      (2 ≤ r ∧ r ≤ buf.length ∧ ∀ x ∈ buf.take r, 128 ≤ x) := by
  cases buf with
  | nil => cases h
  | cons b rest =>
    unfold getCodeFromUtf8 at h
    dsimp only at h
    split at h
    · next hlow =>
      cases h
      rcases charToUInt_high b with ⟨-, heq, hlt⟩ | ⟨hne, -⟩
      · exact Or.inl ⟨b, rest, rfl, rfl, heq, hlt⟩
      · exact absurd hlow hne
    · next hhigh =>
      have hb : 128 ≤ b := by
        rcases charToUInt_high b with ⟨hlow, -⟩ | ⟨-, hb⟩
        · exact absurd hlow hhigh
        · exact hb
      split at h
      · cases h
      · next l code hlead =>
        split at h
        · cases h
        · obtain ⟨code', hcode, hpair⟩ := Option.map_eq_some_iff.mp h
          obtain ⟨rfl, rfl⟩ := Prod.mk.inj hpair
          have hl : 2 ≤ l := by
            unfold utf8Lead at hlead
            split at hlead
            · cases hlead
            · split at hlead
              · cases hlead; omega
              · split at hlead
                · cases hlead; omega
                · split at hlead
                  · cases hlead; omega
                  · cases hlead
          obtain ⟨hlen, hall⟩ := utf8Follow_high hcode
          refine Or.inr ⟨hl, by rw [List.length_cons]; omega, fun x hx => ?_⟩
          obtain ⟨k, rfl⟩ : ∃ k, l = k + 1 := ⟨l - 1, by omega⟩
          rw [List.take_succ_cons] at hx
          rcases List.mem_cons.mp hx with rfl | hx
          · exact hb
          · exact hall x hx

end

/-! ## 受ける経路 -/

def isSlash (c : UInt8) : Bool := c == 47 || c == 92

def NoHidden (s : List UInt8) : Prop := ∀ x ∈ components isSlash s, x.head? ≠ some 46

section

variable {path u : List UInt8} {c : UInt8}

theorem isSlash_of_high (h : 128 ≤ c) : isSlash c = false := by
  unfold isSlash
  simp only [Bool.or_eq_false_iff, beq_eq_false_iff_ne]
  refine ⟨fun he => ?_, fun he => ?_⟩ <;> rw [he] at h <;> exact absurd h (by decide)

theorem ne_zero_of_high (h : 128 ≤ c) : c ≠ 0 := fun he => by
  rw [he] at h
  exact absurd h (by decide)

theorem ne_dot_of_high (h : 128 ≤ c) : c ≠ 46 := fun he => by
  rw [he] at h
  exact absurd h (by decide)

theorem safeTable_chars (h : h2esqPathSafeTable c.toUInt32 = true) :
    c ≠ 0 ∧ isSlash c = false ∧ c ≠ 46 := by
  have hall : ∀ n : Fin 256, h2esqPathSafeTable (UInt8.ofFin n).toUInt32 = true →
      UInt8.ofFin n ≠ 0 ∧ isSlash (UInt8.ofFin n) = false ∧ UInt8.ofFin n ≠ 46 := by
    decide +kernel
  exact hall c.toFin h

theorem eq_of_toUInt32 {d : UInt8} (h : c.toUInt32 = d.toUInt32) : c = d := by
  have h := congrArg UInt32.toNat h
  rw [UInt8.toNat_toUInt32, UInt8.toNat_toUInt32] at h
  exact UInt8.toNat_inj.mp h

theorem noHidden_word (hu : ∀ x ∈ u, isSlash x = false) (hdot : u.head? ≠ some 46) : NoHidden u := by
  intro x hx
  by_cases hne : u = []
  · rw [hne] at hx
    cases hx
  · rw [components_of_forall hne hu, List.mem_singleton] at hx
    rw [hx]
    exact hdot

theorem forall_not_isSlash_append (hu : ∀ x ∈ u, isSlash x = false) (hc : isSlash c = false) :
    ∀ x ∈ u ++ [c], isSlash x = false := by
  intro x hx
  rcases List.mem_append.mp hx with hx | hx
  · exact hu x hx
  · rw [List.mem_singleton.mp hx]
    exact hc

/-- **loop が受ければ、読みかけの部分 `u` も、その先の部分も `.` で始まらない。** -/
theorem noHidden_of_loop : ∀ {n i filenameLen : Nat} {afterdot : Bool} {path u : List UInt8},
    pathIsVerySafeLoop n i filenameLen afterdot path = true → (filenameLen ≠ 0 → u ≠ []) →
    (∀ x ∈ u, isSlash x = false) → u.head? ≠ some 46 →
    NoHidden (u ++ cstring path) ∧ 92 ∉ cstring path
  | 0, _, _, _, _, _, h, _, _, _ => by cases h
  | n + 1, i, filenameLen, afterdot, path, u, h, hlen, hu, hdot => by
    have hhead : ∀ w : List UInt8, w.head? ≠ some 46 ∨ u ≠ [] → (u ++ w).head? ≠ some 46 := by
      intro w hw
      cases u with
      | nil => exact hw.resolve_right fun hne => hne rfl
      | cons x u => exact hdot
    unfold pathIsVerySafeLoop at h
    split at h
    · cases h
    split at h
    · cases h
    split at h
    · cases h
    next r c hcode =>
    rcases getCodeFromUtf8_cases hcode with ⟨b, rest, rfl, rfl, rfl, -⟩ | ⟨hr, hle, hhigh⟩
    · rw [if_neg (not_not.mpr rfl)] at h
      -- `u` に `b` を足して進む
      have hword : ∀ {l : Nat} {k : Bool}, pathIsVerySafeLoop n (i + 1) (l + 1) k rest = true →
          b ≠ 0 → isSlash b = false → (u ++ [b]).head? ≠ some 46 →
          NoHidden (u ++ cstring (b :: rest)) ∧ 92 ∉ cstring (b :: rest) := by
        intro l k h h0 hslash hb
        obtain ⟨h1, h2⟩ := noHidden_of_loop h (fun _ => by simp) (forall_not_isSlash_append hu hslash) hb
        rw [List.append_assoc] at h1
        rw [cstring_cons h0]
        refine ⟨h1, fun hm => ?_⟩
        rcases List.mem_cons.mp hm with rfl | hm
        · exact absurd hslash (by decide)
        · exact h2 hm
      split at h
      · -- 表にある文字
        next hsafe =>
        obtain ⟨h0, hslash, h46⟩ := safeTable_chars hsafe
        exact hword h h0 hslash (hhead [b] (Or.inl fun he => h46 (Option.some.inj he)))
      split at h
      · -- `/` で部分が終わる
        next hb =>
        have hb : b = 47 := eq_of_toUInt32 hb
        subst hb
        split at h
        · cases h
        obtain ⟨h1, h2⟩ := noHidden_of_loop (u := []) h (fun hne => absurd rfl hne)
          (fun x hx => by cases hx) (by simp)
        rw [cstring_cons (by decide)]
        refine ⟨fun x hx => ?_, fun hm => ?_⟩
        · rw [components_append_cons u _ rfl] at hx
          rcases List.mem_append.mp hx with hx | hx
          · exact noHidden_word hu hdot x hx
          · exact h1 x hx
        · rcases List.mem_cons.mp hm with he | hm
          · exact absurd he (by decide)
          · exact h2 hm
      split at h
      · -- NUL で終わる
        next hb =>
        have hb : b = 0 := eq_of_toUInt32 hb
        subst hb
        rw [cstring_zero, List.append_nil]
        exact ⟨noHidden_word hu hdot, List.not_mem_nil⟩
      split at h
      · -- 部分の途中の `.`
        next hb =>
        have hb : b = 46 := eq_of_toUInt32 hb
        subst hb
        split at h
        · next hne => exact hword h (by decide) rfl (hhead [46] (Or.inr (hlen hne)))
        · cases h
      · cases h
    · -- 多 byte の文字
      rw [if_pos (by omega)] at h
      have hzero : 0 ∉ path.take r := fun h0 => ne_zero_of_high (hhigh 0 h0) rfl
      have hsplit : cstring path = path.take r ++ cstring (path.drop r) := by
        rw [← cstring_append hzero, List.take_append_drop]
      have hne : path.take r ≠ [] := by
        rw [← List.length_pos_iff, List.length_take]
        omega
      have hslash : ∀ x ∈ path.take r, isSlash x = false := fun x hx => isSlash_of_high (hhigh x hx)
      obtain ⟨h1, h2⟩ := noHidden_of_loop (u := u ++ path.take r) h (fun _ => by simp [hne])
        (fun x hx => (List.mem_append.mp hx).elim (hu x) (hslash x)) (hhead _ (Or.inl fun he =>
          ne_dot_of_high (hhigh 46 (List.mem_of_mem_head? he)) rfl))
      rw [hsplit, ← List.append_assoc]
      refine ⟨h1, fun hm => ?_⟩
      rcases List.mem_append.mp hm with hm | hm
      · exact absurd (hslash 92 hm) (by decide)
      · exact h2 hm

/-- **受ける経路は、`/` でも `\` でも始まらず、どの部分も `.` で始まらない。** -/
theorem noHidden_of_safe (h : pathIsVerySafe path = true) :
    (∀ c ∈ (cstring path).head?, isSlash c = false) ∧ NoHidden (cstring path) := by
  unfold pathIsVerySafe at h
  split at h
  · cases h
  · next hslash =>
    obtain ⟨h1, h2⟩ := noHidden_of_loop (u := []) h (fun hne => absurd rfl hne)
      (fun x hx => by cases hx) (by simp)
    refine ⟨fun c hc => ?_, h1⟩
    cases path with
    | nil => cases hc
    | cons b path =>
      by_cases hb : b = 0
      · rw [hb, cstring_zero] at hc
        cases hc
      · rw [cstring_cons hb] at hc h2
        obtain rfl : b = c := Option.some.inj hc
        unfold isSlash
        simp only [Bool.or_eq_false_iff, beq_eq_false_iff_ne]
        exact ⟨fun he => hslash (he ▸ rfl), fun he => h2 (he ▸ List.mem_cons_self)⟩

end

end Esq
