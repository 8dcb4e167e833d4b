import Esq.Libs.Utf8

/-!
# 安全な経路の文法

`path_is_very_safe` が受ける経路を、`/` で区切った部分の列として書く。部分は、表にある文字、`.`、
`get_code_from_utf8` が一つに読む多 byte の文字からなり、`.` で始まらず、`.` で終わらない。

* `path_safe_sound` — 受けるのは、この文法の経路だけである
* `path_safe_complete_iff` — この文法の経路を受けるのは、どの `.` の後にも、同じ部分の中に表の文字がある
  とき、そのときに限る。多 byte の文字は、`.` の後であることを忘れさせない
-/

namespace Esq

open Infra

/-! ## 文法 -/

def isPathWord (b : UInt8) : Prop :=
  65 ≤ b ∧ b ≤ 90 ∨ 97 ≤ b ∧ b ≤ 122 ∨ 48 ≤ b ∧ b ≤ 57 ∨ b = 43 ∨ b = 45 ∨ b = 95

instance (b : UInt8) : Decidable (isPathWord b) := by
  unfold isPathWord
  infer_instance

inductive PathChar where
  | word (b : UInt8) (word : isPathWord b)
  | dot
  /-- `get_code_from_utf8` が一つに読む、二 byte 以上の列 -/
  | group (bytes : List UInt8) (code : UInt32)
    (decode : getCodeFromUtf8 bytes = some (bytes.length, code)) (many : 2 ≤ bytes.length)

def PathChar.render : PathChar → List UInt8
  | .word b _ => [b]
  | .dot => [46]
  | .group bytes _ _ _ => bytes

def renderPart (cs : List PathChar) : List UInt8 := cs.flatMap PathChar.render

def renderParts (parts : List (List PathChar)) : List UInt8 :=
  [47].intercalate (parts.map renderPart)

/-- どの部分も `partMax` byte を越えない、安全な経路。 -/
structure SafePath (partMax : Nat) where
  parts : List (List PathChar)
  short : (renderParts parts).length < safePathMax
  noSlash : (renderParts parts).head? ≠ some 47
  partShort : ∀ cs ∈ parts, (renderPart cs).length ≤ partMax
  noDot : ∀ cs ∈ parts, cs.head? ≠ some .dot ∧ cs.getLast? ≠ some .dot

def SafePath.render {partMax : Nat} (p : SafePath partMax) : List UInt8 := renderParts p.parts

/-- `afterdot`。部分を読み終えたときの値である。 -/
def afterdot (k : Bool) : List PathChar → Bool
  | [] => k
  | .word _ _ :: cs => afterdot false cs
  | .dot :: cs => afterdot true cs
  | .group _ _ _ _ :: cs => afterdot k cs

/-- どの `.` の後にも、同じ部分の中に表の文字がある。 -/
def DotsFollowed (cs : List PathChar) : Prop :=
  ∀ pre post, cs = pre ++ .dot :: post → ∃ b h, .word b h ∈ post

section

variable {b : UInt8} {c : PathChar} {cs pre post : List PathChar} {parts : List (List PathChar)}
  {k : Bool} {path rest : List UInt8} {n i l : Nat}

/-! ## `afterdot` -/

theorem afterdot_append (k : Bool) : ∀ (pre post : List PathChar),
    afterdot k (pre ++ post) = afterdot (afterdot k pre) post
  | [], _ => rfl
  | .word _ _ :: pre, post => afterdot_append false pre post
  | .dot :: pre, post => afterdot_append true pre post
  | .group _ _ _ _ :: pre, post => afterdot_append k pre post

theorem afterdot_congr (h : ∃ b h, PathChar.word b h ∈ cs) (k k' : Bool) :
    afterdot k cs = afterdot k' cs := by
  obtain ⟨b, h, hmem⟩ := h
  obtain ⟨pre, post, rfl⟩ := List.append_of_mem hmem
  rw [afterdot_append, afterdot_append]
  rfl

theorem afterdot_true (h : ¬ ∃ b h, PathChar.word b h ∈ cs) : afterdot true cs = true := by
  induction cs with
  | nil => rfl
  | cons c cs ih =>
    have hcs : ¬ ∃ b h, PathChar.word b h ∈ cs := fun ⟨b, hb, hm⟩ =>
      h ⟨b, hb, List.mem_cons_of_mem c hm⟩
    cases c with
    | word b hb => exact absurd ⟨b, hb, List.mem_cons_self⟩ h
    | dot => exact ih hcs
    | group _ _ _ _ => exact ih hcs

theorem afterdot_false_iff : afterdot false cs = false ↔ DotsFollowed cs := by
  constructor
  · rintro h pre post rfl
    by_contra hno
    rw [afterdot_append] at h
    have htrue := afterdot_true hno
    rw [show afterdot (afterdot false pre) (.dot :: post) = afterdot true post from rfl, htrue] at h
    cases h
  · intro h
    induction cs with
    | nil => rfl
    | cons c cs ih =>
      have hcs : DotsFollowed cs := fun pre post he => h (c :: pre) post (by rw [he]; rfl)
      cases c with
      | word b hb => exact ih hcs
      | group _ _ _ _ => exact ih hcs
      | dot =>
        show afterdot true cs = false
        rw [afterdot_congr (h [] cs rfl) true false]
        exact ih hcs

/-! ## 一つの文字 -/

theorem h2esqPathSafeTable_iff (b : UInt8) :
    h2esqPathSafeTable b.toUInt32 = true ↔ isPathWord b := by
  have hall : ∀ n : Fin 256, h2esqPathSafeTable (UInt8.ofFin n).toUInt32 = true ↔
      isPathWord (UInt8.ofFin n) := by
    decide +kernel
  exact hall b.toFin

theorem getCodeFromUtf8_ascii (hb : b < 128) (rest : List UInt8) :
    getCodeFromUtf8 (b :: rest) = some (1, b.toUInt32) := by
  unfold getCodeFromUtf8
  dsimp only
  rcases charToUInt_high b with ⟨hlow, heq, -⟩ | ⟨-, hhigh⟩
  · rw [if_pos hlow, heq]
  · exact absurd hb (UInt8.not_lt.mpr hhigh)

theorem getCodeFromUtf8_append {r : Nat} {code : UInt32} (h : getCodeFromUtf8 path = some (r, code))
    (rest : List UInt8) : getCodeFromUtf8 (path ++ rest) = some (r, code) := by
  obtain ⟨g, hg, hlen, hpre, hlead⟩ := getCodeFromUtf8_eq_some_iff.mp h
  exact getCodeFromUtf8_eq_some_iff.mpr ⟨g, hg, hlen, hpre.trans (List.prefix_append _ _), hlead⟩

theorem getCodeFromUtf8_take {r : Nat} {code : UInt32} (h : getCodeFromUtf8 path = some (r, code)) :
    getCodeFromUtf8 (path.take r) = some (r, code) := by
  obtain ⟨g, hg, rfl, ⟨rest, rfl⟩, hlead⟩ := getCodeFromUtf8_eq_some_iff.mp h
  rw [List.take_left]
  exact getCodeFromUtf8_eq_some_iff.mpr ⟨g, hg, rfl, List.prefix_rfl, hlead⟩

variable (hi : i < safePathMax) (hl : l < safeFilenameMax)

include hi hl

theorem pathLoop_ascii (hb : b < 128) : pathIsVerySafeLoop (n + 1) i l k (b :: path) =
    if h2esqPathSafeTable b.toUInt32 then pathIsVerySafeLoop n (i + 1) (l + 1) false path
    else if b.toUInt32 = 47 then
      if k then false else pathIsVerySafeLoop n (i + 1) 0 false path
    else if b.toUInt32 = 0 then !k
    else if b.toUInt32 = 46 then
      if l ≠ 0 then pathIsVerySafeLoop n (i + 1) (l + 1) true path else false
    else false := by
  rw [pathIsVerySafeLoop, if_neg (by omega), if_neg (by omega), getCodeFromUtf8_ascii hb]
  dsimp only
  rw [if_neg (by omega)]
  rfl

theorem pathLoop_word (hb : isPathWord b) : pathIsVerySafeLoop (n + 1) i l k (b :: path)
    = pathIsVerySafeLoop n (i + 1) (l + 1) false path := by
  have hlt : b < 128 := by
    unfold isPathWord at hb
    simp only [UInt8.le_iff_toNat_le, ← UInt8.toNat_inj, UInt8.reduceToNat] at hb
    rw [UInt8.lt_iff_toNat_lt]
    show b.toNat < 128
    omega
  rw [pathLoop_ascii hi hl hlt, if_pos ((h2esqPathSafeTable_iff b).mpr hb)]

theorem pathLoop_dot : pathIsVerySafeLoop (n + 1) i l k (46 :: path)
    = if l ≠ 0 then pathIsVerySafeLoop n (i + 1) (l + 1) true path else false := by
  rw [pathLoop_ascii hi hl (by decide), if_neg (by decide), if_neg (by decide), if_neg (by decide),
    if_pos (by decide)]

theorem pathLoop_slash : pathIsVerySafeLoop (n + 1) i l k (47 :: path)
    = if k then false else pathIsVerySafeLoop n (i + 1) 0 false path := by
  rw [pathLoop_ascii hi hl (by decide), if_neg (by decide), if_pos (by decide)]

theorem pathLoop_zero : pathIsVerySafeLoop (n + 1) i l k (0 :: path) = !k := by
  rw [pathLoop_ascii hi hl (by decide), if_neg (by decide), if_neg (by decide), if_pos (by decide)]

theorem pathLoop_group {g : List UInt8} {code : UInt32}
    (hg : getCodeFromUtf8 g = some (g.length, code)) (hmany : 2 ≤ g.length) :
    pathIsVerySafeLoop (n + 1) i l k (g ++ path)
      = pathIsVerySafeLoop n (i + g.length) (l + g.length) k path := by
  rw [pathIsVerySafeLoop, if_neg (by omega), if_neg (by omega), getCodeFromUtf8_append hg]
  dsimp only
  rw [if_pos (by omega), List.drop_left]

end

/-! ## 受ける経路 -/

section

variable {cs : List PathChar} {parts : List (List PathChar)} {k : Bool} {rest : List UInt8}
  {n i l : Nat}

@[simp] theorem renderPart_cons (c : PathChar) (cs : List PathChar) :
    renderPart (c :: cs) = c.render ++ renderPart cs := List.flatMap_cons

theorem renderParts_cons (c : PathChar) (cs : List PathChar) (parts : List (List PathChar)) :
    renderParts ((c :: cs) :: parts) = c.render ++ renderParts (cs :: parts) := by
  unfold renderParts
  cases parts with
  | nil => simp
  | cons part parts => simp [List.append_assoc]

theorem renderParts_nil_cons (part : List PathChar) (parts : List (List PathChar)) :
    renderParts ([] :: part :: parts) = 47 :: renderParts (part :: parts) := by
  unfold renderParts
  simp [renderPart]

/--
**経路を読むと、`.` を覚えたまま終わる部分が無いときに、そのときに限り受ける。**

`cs` は読みかけの部分の残り、`parts` はその先の部分である。
-/
theorem pathLoop_render : ∀ (cs : List PathChar) (parts : List (List PathChar)) {n i l : Nat}
    {k : Bool}, i + (renderParts (cs :: parts)).length < safePathMax → safePathMax ≤ i + n →
    l + (renderPart cs).length < safeFilenameMax →
    (∀ part ∈ parts, (renderPart part).length < safeFilenameMax) →
    (l = 0 → cs.head? ≠ some .dot) → (∀ part ∈ parts, part.head? ≠ some .dot) →
    (pathIsVerySafeLoop n i l k (renderParts (cs :: parts) ++ 0 :: rest) = true ↔
      afterdot k cs = false ∧ ∀ part ∈ parts, afterdot false part = false)
  | [], [], n, i, l, k, hi, hn, hl, _, _, _ => by
    obtain ⟨n, rfl⟩ : ∃ m, n = m + 1 := ⟨n - 1, by omega⟩
    show pathIsVerySafeLoop (n + 1) i l k (0 :: rest) = true ↔ _
    rw [pathLoop_zero (by omega) (by omega)]
    simp [afterdot]
  | [], part :: parts, n, i, l, k, hi, hn, hl, hparts, _, hdots => by
    obtain ⟨n, rfl⟩ : ∃ m, n = m + 1 := ⟨n - 1, by omega⟩
    rw [renderParts_nil_cons] at hi ⊢
    rw [List.length_cons] at hi
    rw [List.cons_append, pathLoop_slash (by omega) (by omega), List.forall_mem_cons]
    cases k with
    | true => simp [afterdot]
    | false =>
      rw [if_neg Bool.false_ne_true, pathLoop_render part parts (by omega) (by omega)
        (by simpa using hparts part List.mem_cons_self)
        (fun q hq => hparts q (List.mem_cons_of_mem part hq))
        (fun _ => hdots part List.mem_cons_self)
        (fun q hq => hdots q (List.mem_cons_of_mem part hq))]
      exact (and_iff_right rfl).symm
  | c :: cs, parts, n, i, l, k, hi, hn, hl, hparts, hdot, hdots => by
    obtain ⟨n, rfl⟩ : ∃ m, n = m + 1 := ⟨n - 1, by omega⟩
    rw [renderParts_cons, List.length_append] at hi
    rw [renderPart_cons, List.length_append] at hl
    rw [renderParts_cons, List.append_assoc]
    cases c with
    | word b hb =>
      have hlen : (PathChar.word b hb).render.length = 1 := rfl
      rw [hlen] at hi hl
      show pathIsVerySafeLoop (n + 1) i l k (b :: _) = true ↔ _
      rw [pathLoop_word (by omega) (by omega) hb]
      exact pathLoop_render cs parts (by omega) (by omega) (by omega) hparts
        (fun h => by omega) hdots
    | dot =>
      have hlen : PathChar.dot.render.length = 1 := rfl
      rw [hlen] at hi hl
      have hl0 : l ≠ 0 := fun h => hdot h rfl
      show pathIsVerySafeLoop (n + 1) i l k (46 :: _) = true ↔ _
      rw [pathLoop_dot (by omega) (by omega), if_pos hl0]
      exact pathLoop_render cs parts (by omega) (by omega) (by omega) hparts
        (fun h => by omega) hdots
    | group g code hg hmany =>
      have hlen : (PathChar.group g code hg hmany).render = g := rfl
      rw [hlen] at hi hl ⊢
      rw [pathLoop_group (by omega) (by omega) hg hmany]
      exact pathLoop_render cs parts (by omega) (by omega) (by omega) hparts
        (fun h => by omega) hdots
termination_by cs parts => (parts.length, cs.length)

/-- 読みかけの部分の残り `cs` と、その先の部分 `parts`。 -/
structure PathRead (i l : Nat) (k : Bool) (path : List UInt8) (cs : List PathChar)
    (parts : List (List PathChar)) : Prop where
  text : cstring path = renderParts (cs :: parts)
  short : i + (cstring path).length < safePathMax
  partShort : l + (renderPart cs).length < safeFilenameMax
  partsShort : ∀ part ∈ parts, (renderPart part).length < safeFilenameMax
  noDot : l = 0 → cs.head? ≠ some .dot
  noDots : ∀ part ∈ parts, part.head? ≠ some .dot
  closed : afterdot k cs = false
  allClosed : ∀ part ∈ parts, afterdot false part = false

variable {path : List UInt8} {c : PathChar}

theorem PathRead.cons {k' : Bool} {path' : List UInt8}
    (h : PathRead (i + c.render.length) (l + c.render.length) k' path' cs parts)
    (htext : cstring path = c.render ++ cstring path') (hk : afterdot k (c :: cs) = afterdot k' cs)
    (hdot : l = 0 → c ≠ .dot) : PathRead i l k path (c :: cs) parts where
  text := by rw [htext, h.text, renderParts_cons]
  short := by
    have := h.short
    rw [htext, List.length_append]
    omega
  partShort := by
    have := h.partShort
    rw [renderPart_cons, List.length_append]
    omega
  partsShort := h.partsShort
  noDot h0 he := hdot h0 (Option.some.inj he)
  noDots := h.noDots
  closed := hk.trans h.closed
  allClosed := h.allClosed

theorem pathLoop_read : ∀ {n i l : Nat} {k : Bool} {path : List UInt8},
    pathIsVerySafeLoop n i l k path = true → ∃ cs parts, PathRead i l k path cs parts
  | 0, _, _, _, _, h => by cases h
  | n + 1, i, l, k, path, h => by
    have hi : i < safePathMax := by
      by_contra hge
      rw [pathIsVerySafeLoop, if_pos (Nat.le_of_not_lt hge)] at h
      cases h
    have hl : l < safeFilenameMax := by
      by_contra hge
      rw [pathIsVerySafeLoop, if_neg (by omega), if_pos (Nat.le_of_not_lt hge)] at h
      cases h
    cases hcode : getCodeFromUtf8 path with
    | none =>
      rw [pathIsVerySafeLoop, if_neg (by omega), if_neg (by omega), hcode] at h
      cases h
    | some rc =>
    obtain ⟨r, code⟩ := rc
    rcases getCodeFromUtf8_cases hcode with ⟨b, rest, rfl, rfl, rfl, hb⟩ | ⟨hr, hle, hhigh⟩
    · by_cases hword : isPathWord b
      · -- 表にある文字
        rw [pathLoop_word hi hl hword] at h
        obtain ⟨cs, parts, hread⟩ := pathLoop_read h
        have h0 : b ≠ 0 := by
          rintro rfl
          exact absurd hword (by decide)
        exact ⟨.word b hword :: cs, parts, hread.cons (c := .word b hword)
          (cstring_cons h0 rest) rfl
          fun _ he => PathChar.noConfusion he⟩
      rw [pathLoop_ascii hi hl hb, if_neg fun hs => hword ((h2esqPathSafeTable_iff b).mp hs)] at h
      split at h
      · -- `/` で部分が終わる
        next hslash =>
        obtain rfl : b = 47 := eq_of_toUInt32 hslash
        split at h
        · cases h
        next hk =>
        obtain ⟨cs, parts, hread⟩ := pathLoop_read h
        have hlen := hread.short
        refine ⟨[], cs :: parts, ?_, ?_, ?_, ?_, ?_, ?_, ?_, ?_⟩
        · rw [cstring_cons (by decide), hread.text, renderParts_nil_cons]
        · rw [cstring_cons (by decide), List.length_cons]
          omega
        · exact hl
        · rw [List.forall_mem_cons]
          exact ⟨by simpa using hread.partShort, hread.partsShort⟩
        · exact fun _ he => by cases he
        · rw [List.forall_mem_cons]
          exact ⟨hread.noDot rfl, hread.noDots⟩
        · exact Bool.eq_false_iff.mpr hk
        · rw [List.forall_mem_cons]
          exact ⟨hread.closed, hread.allClosed⟩
      split at h
      · -- NUL で終わる
        next hzero =>
        obtain rfl : b = 0 := eq_of_toUInt32 hzero
        refine ⟨[], [], ?_, ?_, hl, fun _ hq => (nomatch hq), ?_, fun _ hq => (nomatch hq), ?_,
          fun _ hq => (nomatch hq)⟩
        · rw [cstring_zero]
          rfl
        · rw [cstring_zero]
          exact hi
        · exact fun _ he => by cases he
        · exact (Bool.not_eq_true' k).mp h
      split at h
      · -- 部分の途中の `.`
        next hdot =>
        obtain rfl : b = 46 := eq_of_toUInt32 hdot
        split at h
        · next h0 =>
          obtain ⟨cs, parts, hread⟩ := pathLoop_read h
          exact ⟨.dot :: cs, parts, hread.cons (c := .dot) (cstring_cons (by decide) rest) rfl
            fun hl0 => absurd hl0 h0⟩
        · cases h
      · cases h
    · -- 多 byte の文字
      have htake := getCodeFromUtf8_take hcode
      have hlen : (path.take r).length = r := by
        rw [List.length_take, Nat.min_eq_left hle]
      have hsplit : path.take r ++ path.drop r = path := List.take_append_drop r path
      have hdecode : getCodeFromUtf8 (path.take r) = some ((path.take r).length, code) := by
        rw [hlen]
        exact htake
      have hmany : 2 ≤ (path.take r).length := by omega
      rw [← hsplit, pathLoop_group hi hl hdecode hmany] at h
      obtain ⟨cs, parts, hread⟩ := pathLoop_read h
      have hzero : 0 ∉ path.take r := fun h0 => ne_zero_of_high (hhigh 0 h0) rfl
      refine ⟨.group _ code hdecode hmany :: cs, parts,
        hread.cons (c := .group _ code hdecode hmany) ?_ rfl fun _ he => PathChar.noConfusion he⟩
      conv_lhs => rw [← hsplit]
      exact cstring_append hzero (path.drop r)

theorem getLast?_of_afterdot (h : afterdot k cs = false) : cs.getLast? ≠ some .dot := by
  intro hlast
  obtain ⟨pre, rfl⟩ := List.getLast?_eq_some_iff.mp hlast
  rw [afterdot_append] at h
  cases h

/--
**受ける経路は、2048 byte より短く、`/` で始まらず、どの部分も 254 byte 以下で、表の文字と `.` と多 byte の
文字からなり、`.` で始まらず `.` で終わらない。**
-/
theorem path_safe_sound (path : List UInt8) (h : pathIsVerySafe path = true) :
    ∃ p : SafePath 254, p.render = cstring path := by
  unfold pathIsVerySafe at h
  split at h
  · cases h
  next hslash =>
  obtain ⟨cs, parts, hread⟩ := pathLoop_read h
  have hshort := hread.short
  rw [hread.text, Nat.zero_add] at hshort
  have hpart := hread.partShort
  refine ⟨⟨cs :: parts, hshort, ?_, ?_, ?_⟩, hread.text.symm⟩
  · rw [← hread.text]
    intro hhead
    cases path with
    | nil => cases hhead
    | cons b path =>
      by_cases hb : b = 0
      · rw [hb, cstring_zero] at hhead
        cases hhead
      · rw [cstring_cons hb] at hhead
        exact hslash hhead
  · rw [List.forall_mem_cons]
    exact ⟨by rw [Nat.zero_add] at hpart; exact Nat.le_of_lt_succ hpart,
      fun q hq => Nat.le_of_lt_succ (hread.partsShort q hq)⟩
  · rw [List.forall_mem_cons]
    exact ⟨⟨hread.noDot rfl, getLast?_of_afterdot hread.closed⟩, fun q hq =>
      ⟨hread.noDots q hq, getLast?_of_afterdot (hread.allClosed q hq)⟩⟩

/-- `index.html` を受ける。 -/
theorem path_safe_sound_index : ∃ p : SafePath 254,
    p.render = [105, 110, 100, 101, 120, 46, 104, 116, 109, 108] :=
  path_safe_sound [105, 110, 100, 101, 120, 46, 104, 116, 109, 108, 0] (by decide +kernel)

/--
**文法の通りの経路を受けるのは、どの `.` の後にも、同じ部分の中に表の文字があるとき、そのときに限る。**
-/
theorem path_safe_complete_iff (p : SafePath 250) (rest : List UInt8) :
    pathIsVerySafe (p.render ++ 0 :: rest) = true ↔ ∀ cs ∈ p.parts, DotsFollowed cs := by
  obtain ⟨parts, hshort, hslash, hpart, hdots⟩ := p
  have hhead : (renderParts parts ++ 0 :: rest).head? ≠ some 47 := by
    rw [List.head?_append]
    cases hr : (renderParts parts).head? with
    | none => exact fun he => by cases he
    | some b =>
      rw [hr] at hslash
      exact hslash
  have hbound : ∀ cs ∈ parts, (renderPart cs).length < safeFilenameMax := fun cs hcs =>
    (hpart cs hcs).trans_lt (by decide)
  show pathIsVerySafe (renderParts parts ++ 0 :: rest) = true ↔ ∀ cs ∈ parts, DotsFollowed cs
  unfold pathIsVerySafe
  rw [if_neg hhead]
  cases parts with
  | nil => exact iff_of_true rfl fun _ hcs => (nomatch hcs)
  | cons cs parts =>
    rw [pathLoop_render cs parts (by omega) (by omega)
      (by rw [Nat.zero_add]; exact hbound cs List.mem_cons_self)
      (fun q hq => hbound q (List.mem_cons_of_mem cs hq)) (fun _ => (hdots cs List.mem_cons_self).1)
      (fun q hq => (hdots q (List.mem_cons_of_mem cs hq)).1), List.forall_mem_cons,
      afterdot_false_iff]
    exact and_congr_right fun _ => forall₂_congr fun q _ => afterdot_false_iff

def dotAccentPath : SafePath 250 where
  parts := [[.word 97 (by decide), .dot, .group [0xc3, 0xa9] 0xe9 (by decide) (by decide)]]
  short := by decide
  noSlash := by decide
  partShort := by decide
  noDot cs hcs := by
    obtain rfl := List.mem_singleton.mp hcs
    simp

/-- 多 byte の文字では `.` の後であることを忘れないので、`a.é` を断る。 -/
theorem dot_before_accent_refused :
    pathIsVerySafe (dotAccentPath.render ++ [0]) = false ∧
      ¬ ∀ (p : SafePath 250) (rest : List UInt8),
        pathIsVerySafe (p.render ++ 0 :: rest) = true := by
  have hrefused : pathIsVerySafe (dotAccentPath.render ++ [0]) = false := by decide +kernel
  exact ⟨hrefused, fun h => Bool.eq_false_iff.mp hrefused (h dotAccentPath [])⟩

end

/-! ## 読む byte -/

theorem getCodeFromUtf8_nul (u rest : List UInt8) :
    getCodeFromUtf8 (u ++ 0 :: rest) = getCodeFromUtf8 (u ++ [0]) := by
  have hsplit : u ++ 0 :: rest = (u ++ [0]) ++ rest := by rw [List.append_assoc]; rfl
  cases h : getCodeFromUtf8 (u ++ 0 :: rest) with
  | some rc =>
    obtain ⟨r, c⟩ := rc
    -- 読んだ列は、NUL までにある
    have hr : r ≤ u.length + 1 := by
      rcases getCodeFromUtf8_cases h with ⟨b, w, -, rfl, -, -⟩ | ⟨-, -, hall⟩
      · exact Nat.le_add_left _ _
      · by_contra hlt
        have hzero : (0 : UInt8) ∈ (u ++ 0 :: rest).take r := by
          obtain ⟨k, rfl⟩ := Nat.exists_eq_add_of_lt (Nat.lt_of_not_le hlt)
          rw [Nat.add_assoc, Nat.add_assoc, List.take_length_add_append, Nat.add_comm 1,
            List.take_succ_cons]
          exact List.mem_append_right _ List.mem_cons_self
        exact absurd (hall 0 hzero) (by decide)
    have htake := getCodeFromUtf8_take h
    have hpre : (u ++ 0 :: rest).take r = (u ++ [0]).take r := by
      rw [hsplit, List.take_append_of_le_length (by rw [List.length_append]; exact hr)]
    rw [hpre] at htake
    have happ := getCodeFromUtf8_append htake ((u ++ [0]).drop r)
    rw [List.take_append_drop] at happ
    exact happ.symm
  | none =>
    cases h' : getCodeFromUtf8 (u ++ [0]) with
    | none => rfl
    | some rc =>
      rw [hsplit, getCodeFromUtf8_append h' rest] at h
      cases h

theorem pathLoop_nul : ∀ (n i l : Nat) (k : Bool) (u rest : List UInt8),
    pathIsVerySafeLoop n i l k (u ++ 0 :: rest) = pathIsVerySafeLoop n i l k (u ++ [0])
  | 0, _, _, _, _, _ => rfl
  | n + 1, i, l, k, u, rest => by
    rw [pathIsVerySafeLoop, pathIsVerySafeLoop, getCodeFromUtf8_nul]
    cases h : getCodeFromUtf8 (u ++ [0]) with
    | none => rfl
    | some rc =>
      obtain ⟨r, c⟩ := rc
      dsimp only
      by_cases hu : u = []
      · subst hu
        rw [List.nil_append, getCodeFromUtf8_ascii (by decide)] at h
        cases h
        rfl
      · -- 読んだ後も、NUL の手前である
        have hr : r ≤ u.length := by
          have hpos := List.length_pos_iff.mpr hu
          rcases getCodeFromUtf8_cases h with ⟨b, w, -, rfl, -, -⟩ | ⟨-, hle, hall⟩
          · exact hpos
          · by_contra hlt
            rw [List.length_append, List.length_singleton] at hle
            have hzero : (0 : UInt8) ∈ (u ++ [0]).take r := by
              rw [List.take_of_length_le (by rw [List.length_append, List.length_singleton]; omega)]
              exact List.mem_append_right _ List.mem_cons_self
            exact absurd (hall 0 hzero) (by decide)
        have hpos : 1 ≤ u.length := List.length_pos_iff.mpr hu
        rw [List.drop_append_of_le_length hr, List.drop_append_of_le_length hr,
          List.drop_append_of_le_length hpos, List.drop_append_of_le_length hpos]
        simp only [pathLoop_nul n]

theorem pathIsVerySafe_nul (u rest : List UInt8) :
    pathIsVerySafe (u ++ 0 :: rest) = pathIsVerySafe (u ++ [0]) := by
  have hhead : (u ++ 0 :: rest).head? = (u ++ [0]).head? := by
    cases u with
    | nil => rfl
    | cons c u => rfl
  unfold pathIsVerySafe
  rw [hhead, pathLoop_nul]

theorem one_notMem_of_safe {path : List UInt8} (h : pathIsVerySafe path = true) : 1 ∉ cstring path := by
  obtain ⟨p, hp⟩ := path_safe_sound path h
  rw [← hp]
  have hchar : ∀ c : PathChar, 1 ∉ c.render := by
    intro c
    cases c with
    | word b hb =>
      intro hm
      rw [PathChar.render, List.mem_singleton] at hm
      subst hm
      exact absurd hb (by decide)
    | dot => decide
    | group bytes code hdecode hmany =>
      intro hm
      rcases getCodeFromUtf8_cases hdecode with ⟨b, w, -, hone, -⟩ | ⟨-, -, hall⟩
      · omega
      · rw [List.take_length] at hall
        exact absurd (hall 1 hm) (by decide)
  have hpart : ∀ cs : List PathChar, 1 ∉ renderPart cs := by
    intro cs hm
    obtain ⟨c, -, hc⟩ := List.mem_flatMap.mp hm
    exact hchar c hc
  have hparts : ∀ parts : List (List PathChar), 1 ∉ renderParts parts := by
    intro parts
    induction parts with
    | nil => exact List.not_mem_nil
    | cons cs parts ih =>
      cases parts with
      | nil => simpa [renderParts] using hpart cs
      | cons cs' parts =>
        have hcons : renderParts (cs :: cs' :: parts)
            = renderPart cs ++ 47 :: renderParts (cs' :: parts) := by
          unfold renderParts
          simp
        rw [hcons, List.mem_append, List.mem_cons, not_or, not_or]
        exact ⟨hpart cs, by decide, ih⟩
  exact hparts p.parts

end Esq
