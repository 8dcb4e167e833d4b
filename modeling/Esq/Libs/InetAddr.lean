import Esq.Libs.Sscanf
import Mathlib.Data.List.TakeWhile

/-!
# libc の `inet_addr`

`inet_addr` は、点で区切られた一つから四つの数を読む。数は `strtoul` の基数 0 で読まれ、`0x` で始まれば
16 進、`0` で始まれば 8 進、他は 10 進である。先頭の空白は許さず、数の後ろの空白から先は読まない。
読めなければ `INADDR_NONE` を返す。
-/

namespace Esq

/-! ## 文字と数 -/

def isDecimal (c : UInt8) : Bool := 48 ≤ c && c ≤ 57

def isOctal (c : UInt8) : Bool := 48 ≤ c && c ≤ 55

def isHexadecimal (c : UInt8) : Bool :=
  isDecimal c || (65 ≤ c && c ≤ 70) || (97 ≤ c && c ≤ 102)

def isSpace (c : UInt8) : Bool := c = 32 || (9 ≤ c && c ≤ 13)

def digitValue (c : UInt8) : Nat :=
  if c ≤ 57 then c.toNat - 48 else if c ≤ 70 then c.toNat - 55 else c.toNat - 87

def digitsValue (base : Nat) (n : List UInt8) : Nat :=
  n.foldl (fun a c => a * base + digitValue c) 0

/-- 数字から始まる `s` を読む `strtoul(s, &endp, 0)`。値と、`endp` から後ろ。 -/
def strtoul (s : List UInt8) : Nat × List UInt8 :=
  if s.head? = some 48 then
    if (s[1]? = some 120 ∨ s[1]? = some 88) ∧ (s[2]?.any isHexadecimal) = true then
      (digitsValue 16 ((s.drop 2).takeWhile isHexadecimal), (s.drop 2).dropWhile isHexadecimal)
    else (digitsValue 8 (s.takeWhile isOctal), s.dropWhile isOctal)
  else (digitsValue 10 (s.takeWhile isDecimal), s.dropWhile isDecimal)

/-! ## `inet_addr` -/

/-- `inet_aton` が読む番地。`dots` はまだ読める点の数、`parts` はそれまでに読んだ数である。 -/
def inetAton : Nat → List Nat → List UInt8 → Option Nat
  | dots, parts, s =>
    if s.head?.any isDecimal then
      let (val, rest) := strtoul s
      if 0xffffffff < val then none
      else if rest.head? = some 46 then
        match dots with
        | 0 => none
        | dots + 1 => if 0xff < val then none else inetAton dots (parts ++ [val]) (rest.drop 1)
      else if rest.head?.any (fun c => !isSpace c) then none
      else if 256 ^ (4 - parts.length) ≤ val then none
      else some (parts.foldl (fun a b => a * 256 + b) 0 * 256 ^ (4 - parts.length) + val)
    else none

def htonl (x : Nat) : Nat :=
  x % 256 * 2 ^ 24 + x / 256 % 256 * 2 ^ 16 + x / 2 ^ 16 % 256 * 2 ^ 8 + x / 2 ^ 24 % 256

def ntohl (x : Nat) : Nat := htonl x

def inaddrNone : Nat := 0xffffffff

def inetAddr (cp : CStr) : Nat := htonl ((inetAton 3 [] cp.bytes).getD inaddrNone)

theorem htonl_eq {x a b c d : Nat} (ha : a < 256) (hb : b < 256) (hc : c < 256) (hd : d < 256)
    (hx : x = a * 2 ^ 24 + b * 2 ^ 16 + c * 2 ^ 8 + d) :
    htonl x = d * 2 ^ 24 + c * 2 ^ 16 + b * 2 ^ 8 + a := by
  have h0 : x % 256 = d := by omega
  have h1 : x / 256 % 256 = c := by omega
  have h2 : x / 2 ^ 16 % 256 = b := by omega
  have h3 : x / 2 ^ 24 % 256 = a := by omega
  unfold htonl
  rw [h0, h1, h2, h3]

theorem ntohl_htonl {x : Nat} (h : x < 2 ^ 32) : ntohl (htonl x) = x := by
  have hx : x = x / 2 ^ 24 * 2 ^ 24 + x / 2 ^ 16 % 256 * 2 ^ 16 + x / 2 ^ 8 % 256 * 2 ^ 8
      + x % 256 := by omega
  have h24 : x / 2 ^ 24 < 256 := by omega
  have hlt : ∀ n, n % 256 < 256 := fun n => Nat.mod_lt n (by decide)
  rw [ntohl, htonl_eq h24 (hlt _) (hlt _) (hlt _) hx, htonl_eq (hlt _) (hlt _) (hlt _) h24 rfl]
  exact hx.symm

/-! ## 数を読む -/

section

variable {n rest : List UInt8} {c : UInt8}

theorem isDecimal_iff : isDecimal c = true ↔ 48 ≤ c.toNat ∧ c.toNat ≤ 57 := by
  simp only [isDecimal, Bool.and_eq_true, decide_eq_true_eq, UInt8.le_iff_toNat_le]
  rfl

theorem isOctal_iff : isOctal c = true ↔ 48 ≤ c.toNat ∧ c.toNat ≤ 55 := by
  simp only [isOctal, Bool.and_eq_true, decide_eq_true_eq, UInt8.le_iff_toNat_le]
  rfl

theorem isSpace_of_decimal (h : isDecimal c = true) : isSpace c = false := by
  have hc := isDecimal_iff.mp h
  have h32 : c ≠ 32 := by
    rintro rfl
    exact absurd h (by decide)
  have h13 : ¬ c ≤ 13 := by
    rw [UInt8.le_iff_toNat_le]
    have h13 : (13 : UInt8).toNat = 13 := rfl
    omega
  simp [isSpace, h32, h13]

theorem digitValue_of_decimal (h : isDecimal c = true) : digitValue c = c.toNat - 48 := by
  have hle : c ≤ 57 := UInt8.le_iff_toNat_le.mpr (isDecimal_iff.mp h).2
  unfold digitValue
  rw [if_pos hle]

theorem digitsValue_append (base : Nat) (n : List UInt8) (c : UInt8) :
    digitsValue base (n ++ [c]) = digitsValue base n * base + digitValue c := by
  unfold digitsValue
  rw [List.foldl_append]
  rfl

theorem digitsValue_octal_le (n : List UInt8) : digitsValue 8 n ≤ digitsValue 10 n := by
  induction n using List.reverseRecOn with
  | nil => exact le_rfl
  | append_singleton n c ih =>
    rw [digitsValue_append, digitsValue_append]
    omega

theorem digitsValue_octal_eq_iff (h : ∀ c ∈ n, isOctal c = true) :
    digitsValue 8 n = digitsValue 10 n ↔ digitsValue 10 n ≤ 7 := by
  cases n using List.reverseRecOn with
  | nil => exact iff_of_true rfl (Nat.zero_le 7)
  | append_singleton n c =>
    have hle := digitsValue_octal_le n
    obtain ⟨h1, h2⟩ := isOctal_iff.mp (h c (List.mem_append_right n List.mem_cons_self))
    have hd := digitValue_of_decimal (isDecimal_iff.mpr ⟨h1, by omega⟩)
    rw [digitsValue_append, digitsValue_append]
    omega

theorem lt_digitsValue_of_not_octal (hn : ∀ c ∈ n, isDecimal c = true)
    (h : ¬ ∀ c ∈ n, isOctal c = true) : 7 < digitsValue 10 n := by
  induction n using List.reverseRecOn with
  | nil => exact absurd (List.forall_mem_nil _) h
  | append_singleton n c ih =>
    have hc := hn c (List.mem_append_right n List.mem_cons_self)
    have hd := digitValue_of_decimal hc
    have hdec := isDecimal_iff.mp hc
    rw [digitsValue_append]
    by_cases hoct : ∀ b ∈ n, isOctal b = true
    · -- 8 か 9 は終わりの桁である
      have hnot : ¬ isOctal c = true := by
        intro ho
        refine h fun b hb => ?_
        rcases List.mem_append.mp hb with hb | hb
        · exact hoct b hb
        · rw [List.mem_singleton.mp hb]
          exact ho
      rw [isOctal_iff] at hnot
      omega
    · have := ih (fun b hb => hn b (List.mem_append_left [c] hb)) hoct
      omega

/-- 基数 0 で読んだ値。8 か 9 のある 8 進の数は途中までしか読めない。 -/
def readValue (n : List UInt8) : Option Nat :=
  if n.head? = some 48 then
    if n.all isOctal then some (digitsValue 8 n) else none
  else some (digitsValue 10 n)

def OctalSafe (n : List UInt8) : Prop := n.head? = some 48 → digitsValue 10 n ≤ 7

instance (n : List UInt8) : Decidable (OctalSafe n) := inferInstanceAs (Decidable (_ → _))

theorem readValue_le {o : Nat} (h : readValue n = some o) : o ≤ digitsValue 10 n := by
  unfold readValue at h
  split at h
  · split at h
    · cases h
      exact digitsValue_octal_le n
    · cases h
  · cases h
    exact le_rfl

theorem readValue_eq_iff (hn : ∀ c ∈ n, isDecimal c = true) :
    readValue n = some (digitsValue 10 n) ↔ OctalSafe n := by
  unfold readValue OctalSafe
  split
  · next hz =>
    split
    · next ho =>
      rw [Option.some.injEq, digitsValue_octal_eq_iff (List.all_eq_true.mp ho),
        forall_prop_of_true hz]
    · next ho =>
      refine iff_of_false (fun h => nomatch h) fun h => ?_
      have := lt_digitsValue_of_not_octal hn (mt List.all_eq_true.mpr ho)
      have := h hz
      omega
  · next hz => exact iff_of_true rfl fun h => absurd h hz

/-- 数の終わりで、次が数字でも `x` でもない。 -/
def NumberEnd (rest : List UInt8) : Prop :=
  ∀ c, rest.head? = some c → isDecimal c = false ∧ c ≠ 120 ∧ c ≠ 88

theorem span_run {p : UInt8 → Bool} (hn : ∀ c ∈ n, p c = true)
    (hend : ∀ c, rest.head? = some c → p c = false) :
    (n ++ rest).takeWhile p = n ∧ (n ++ rest).dropWhile p = rest := by
  rw [List.takeWhile_append_of_pos hn, List.dropWhile_append_of_pos hn]
  cases rest with
  | nil => exact ⟨List.append_nil n, rfl⟩
  | cons c rest =>
    have hc : ¬ p c = true := by
      rw [hend c rfl]
      exact Bool.false_ne_true
    rw [List.takeWhile_cons_of_neg hc, List.dropWhile_cons_of_neg hc]
    exact ⟨List.append_nil n, rfl⟩

theorem isOctal_of_not_decimal (h : isDecimal c = false) : isOctal c = false := by
  rw [← Bool.not_eq_true] at h ⊢
  rw [isOctal_iff]
  rw [isDecimal_iff] at h
  omega

theorem not_hexMark (hne : n ≠ []) (hn : ∀ c ∈ n, isDecimal c = true) (hend : NumberEnd rest) :
    ¬ ((n ++ rest)[1]? = some 120 ∨ (n ++ rest)[1]? = some 88) := by
  obtain ⟨a, m, rfl⟩ := List.exists_cons_of_ne_nil hne
  rw [List.cons_append, List.getElem?_cons_succ, ← List.head?_eq_getElem?]
  cases m with
  | nil =>
    rw [List.nil_append]
    rintro (h | h)
    · exact (hend _ h).2.1 rfl
    · exact (hend _ h).2.2 rfl
  | cons b m =>
    have hb := hn b (by simp)
    rintro (h | h)
    all_goals
      rw [List.cons_append, List.head?_cons, Option.some.injEq] at h
      subst h
      exact absurd hb (by decide)

theorem strtoul_run {o : Nat} (hne : n ≠ []) (hn : ∀ c ∈ n, isDecimal c = true)
    (hend : NumberEnd rest) (h : readValue n = some o) : strtoul (n ++ rest) = (o, rest) := by
  have hhead : (n ++ rest).head? = n.head? := List.head?_append_of_ne_nil n hne
  have hdec : ∀ c, rest.head? = some c → isDecimal c = false := fun c hc => (hend c hc).1
  unfold readValue at h
  unfold strtoul
  rw [hhead]
  by_cases hz : n.head? = some 48
  · rw [if_pos hz] at h
    rw [if_pos hz, if_neg fun hx => not_hexMark hne hn hend hx.1]
    split at h
    · next ho =>
      obtain ⟨ht, hd⟩ := span_run (List.all_eq_true.mp ho) fun c hc =>
        isOctal_of_not_decimal (hdec c hc)
      rw [ht, hd, Option.some.inj h]
    · cases h
  · rw [if_neg hz] at h
    obtain ⟨ht, hd⟩ := span_run hn hdec
    rw [if_neg hz, ht, hd, Option.some.inj h]

theorem strtoul_stuck (hne : n ≠ []) (hn : ∀ c ∈ n, isDecimal c = true)
    (hend : NumberEnd rest) (h : readValue n = none) :
    ∃ c, (strtoul (n ++ rest)).2.head? = some c ∧ isDecimal c = true := by
  have hhead : (n ++ rest).head? = n.head? := List.head?_append_of_ne_nil n hne
  unfold readValue at h
  by_cases hz : n.head? = some 48
  · rw [if_pos hz] at h
    split at h
    · cases h
    · next ho =>
      -- 初めて 8 か 9 が現れる所
      obtain ⟨b, hb, hnot⟩ : ∃ b ∈ n, ¬ isOctal b = true := by
        simpa only [List.all_eq_true, not_forall, exists_prop] using ho
      have hdrop : n.dropWhile isOctal ≠ [] := fun he =>
        hnot (List.dropWhile_eq_nil_iff.mp he b hb)
      obtain ⟨c, m, hcm⟩ := List.exists_cons_of_ne_nil hdrop
      have hmem : c ∈ n := (List.dropWhile_suffix isOctal).subset (by rw [hcm]; simp)
      refine ⟨c, ?_, hn c hmem⟩
      unfold strtoul
      rw [hhead, if_pos hz, if_neg fun hx => not_hexMark hne hn hend hx.1]
      show ((n ++ rest).dropWhile isOctal).head? = some c
      rw [List.dropWhile_append, if_neg (by simp [hcm]), hcm]
      rfl
  · rw [if_neg hz] at h
    cases h

/-! ## 四つの数を読む -/

theorem inetAton_dot {dots : Nat} {parts : List Nat} (hne : n ≠ [])
    (hn : ∀ c ∈ n, isDecimal c = true) (hlt : digitsValue 10 n < 255) :
    inetAton (dots + 1) parts (n ++ 46 :: rest)
      = (readValue n).bind fun o => inetAton dots (parts ++ [o]) rest := by
  have hend : NumberEnd (46 :: rest) := by
    intro c hc
    rw [List.head?_cons, Option.some.injEq] at hc
    subst hc
    exact ⟨by decide, by decide, by decide⟩
  have hhead : ((n ++ 46 :: rest).head?.any isDecimal) = true := by
    obtain ⟨a, m, rfl⟩ := List.exists_cons_of_ne_nil hne
    exact hn a List.mem_cons_self
  rw [inetAton, if_pos hhead]
  cases hr : readValue n with
  | some o =>
    have ho := readValue_le hr
    have h1 : ¬ 0xffffffff < o := by omega
    have h2 : ¬ 0xff < o := by omega
    rw [strtoul_run hne hn hend hr]
    simp only [h1, h2, if_false, List.head?_cons, if_true, List.drop_one, List.tail_cons,
      Option.bind_some]
  | none =>
    obtain ⟨c, hc, hdec⟩ := strtoul_stuck hne hn hend hr
    have h46 : c ≠ 46 := by
      rintro rfl
      exact absurd hdec (by decide)
    have hsp := isSpace_of_decimal hdec
    simp only [hc, Option.some.injEq, h46, if_false, Option.any_some, hsp, Bool.not_false, if_true,
      ite_self, Option.bind_none]

def AtBlank (rest : List UInt8) : Prop := ∀ c, rest.head? = some c → isSpace c = true

theorem AtBlank.numberEnd (h : AtBlank rest) : NumberEnd rest := by
  intro c hc
  have hsp := h c hc
  refine ⟨?_, ?_, ?_⟩
  · by_contra hdec
    rw [isSpace_of_decimal (Bool.eq_true_of_not_eq_false hdec)] at hsp
    cases hsp
  · rintro rfl
    exact absurd hsp (by decide)
  · rintro rfl
    exact absurd hsp (by decide)

theorem inetAton_last {parts : List Nat} (hne : n ≠ []) (hn : ∀ c ∈ n, isDecimal c = true)
    (hlt : digitsValue 10 n < 255) (hend : AtBlank rest) (hparts : parts.length = 3) :
    inetAton 0 parts (n ++ rest)
      = (readValue n).map fun o => parts.foldl (fun a b => a * 256 + b) 0 * 256 + o := by
  have hhead : ((n ++ rest).head?.any isDecimal) = true := by
    obtain ⟨a, m, rfl⟩ := List.exists_cons_of_ne_nil hne
    exact hn a List.mem_cons_self
  rw [inetAton, if_pos hhead]
  cases hr : readValue n with
  | some o =>
    have ho := readValue_le hr
    have h1 : ¬ 0xffffffff < o := by omega
    have h2 : ¬ 256 ^ (4 - 3) ≤ o := by omega
    have hdot : rest.head? ≠ some 46 := fun h => absurd (hend 46 h) (by decide)
    have hblank : (rest.head?.any fun c => !isSpace c) = false := by
      cases hc : rest.head? with
      | none => rfl
      | some c => simp [hend c hc]
    rw [strtoul_run hne hn hend.numberEnd hr]
    simp only [h1, hdot, hblank, hparts, h2, Bool.false_eq_true, if_false, Option.map_some]
    rfl
  | none =>
    obtain ⟨c, hc, hdec⟩ := strtoul_stuck hne hn hend.numberEnd hr
    have h46 : c ≠ 46 := by
      rintro rfl
      exact absurd hdec (by decide)
    simp only [hc, Option.some.injEq, h46, Option.any_some, isSpace_of_decimal hdec,
      Bool.not_false, if_true, ite_self, Option.map_none]

theorem inetAton_of_not_decimal {dots : Nat} {parts : List Nat} {s : List UInt8}
    (h : s.head?.any isDecimal = false) : inetAton dots parts s = none := by
  rw [inetAton, h]
  rfl

end

end Esq
