import Esq.Libs.Ipv4Text

/-!
# `get_ipv4_addr` の文法

`get_ipv4_addr` の八つの状態は、次の文法をちょうど受ける。

* 空白（TAB、LF、CR、SPACE）の並び
* 点一つで区切られた、空でない数字の並び四つ。どの値も 254 以下で、先頭の 0 はいくつあってもよい
* 文字列の終わりか、空白

C の変数は `unsigned int` なので、`2 ^ 32` で切り詰めた計算でも同じ結果になることも示す。
-/

namespace Esq

/-! ## 文法 -/

structure Ipv4Written where
  blanks : List UInt8
  n1 : List UInt8
  n2 : List UInt8
  n3 : List UInt8
  n4 : List UInt8
  tail : List UInt8
  blanks_blank : ∀ c ∈ blanks, c = 9 ∨ c = 10 ∨ c = 13 ∨ c = 32
  runs : ∀ n ∈ [n1, n2, n3, n4],
    n ≠ [] ∧ (∀ c ∈ n, 48 ≤ c ∧ c ≤ 57) ∧ digitsValue 10 n ≤ 254
  tail_blank : ∀ c, tail.head? = some c → c = 9 ∨ c = 10 ∨ c = 13 ∨ c = 32

namespace Ipv4Written

variable (w : Ipv4Written)

def dotted : List UInt8 := w.n1 ++ 46 :: (w.n2 ++ 46 :: (w.n3 ++ 46 :: w.n4))

def bytes : List UInt8 := w.blanks ++ (w.dotted ++ w.tail)

def len : Nat := w.blanks.length + w.dotted.length

def value : Nat :=
  digitsValue 10 w.n1 * 2 ^ 24 + digitsValue 10 w.n2 * 2 ^ 16 + digitsValue 10 w.n3 * 2 ^ 8
    + digitsValue 10 w.n4

end Ipv4Written

/-! ## 文法から読む -/

theorem str2Ipv4HandleTable_blank_iff {c : UInt8} :
    str2Ipv4HandleTable c = .blank ↔ c = 9 ∨ c = 10 ∨ c = 13 ∨ c = 32 := by
  constructor
  · intro h
    unfold str2Ipv4HandleTable at h
    split_ifs at h with h1 h2 h3
    exact h3
  · rintro (rfl | rfl | rfl | rfl) <;> rfl

theorem isDecimal_iff_range {c : UInt8} : isDecimal c = true ↔ 48 ≤ c ∧ c ≤ 57 := by
  simp only [isDecimal, Bool.and_eq_true, decide_eq_true_eq]

theorem handleTable_of_decimal {c : UInt8} (h : 48 ≤ c ∧ c ≤ 57) :
    str2Ipv4HandleTable c = .number :=
  str2Ipv4HandleTable_number_iff.mpr (isDecimal_iff_range.mpr h)

theorem digitValue_of_range {c : UInt8} (h : 48 ≤ c ∧ c ≤ 57) : digitValue c = c.toNat - 48 :=
  digitValue_of_decimal (isDecimal_iff_range.mpr h)

section

variable {ds rest : List UInt8} {v w : Ipv4} {i n : Nat}

theorem le_foldl_digits (ds : List UInt8) (n : Nat) :
    n ≤ ds.foldl (fun a c => a * 10 + digitValue c) n := by
  induction ds generalizing n with
  | nil => exact le_rfl
  | cons c ds ih =>
    refine le_trans ?_ (ih _)
    dsimp only
    omega

theorem getIpv4AddrLoop_digits {put : Nat → Ipv4} (hput : ReadsNumber put) (ds : List UInt8) :
    ∀ {n i : Nat}, (∀ c ∈ ds, 48 ≤ c ∧ c ≤ 57) →
      ds.foldl (fun a c => a * 10 + digitValue c) n ≤ 254 →
      getIpv4AddrLoop (put n) i (ds ++ rest)
        = getIpv4AddrLoop (put (ds.foldl (fun a c => a * 10 + digitValue c) n)) (i + ds.length)
          rest := by
  induction ds with
  | nil =>
    intro n i _ _
    rfl
  | cons c ds ih =>
    intro n i hds hle
    obtain ⟨hc, hds⟩ := List.forall_mem_cons.mp hds
    rw [List.foldl_cons] at hle ⊢
    have hstep : n * 10 + digitValue c ≤ 254 := (le_foldl_digits ds _).trans hle
    have hdigit : Ipv4.digit n (c.toNat - 48) = some (n * 10 + digitValue c) := by
      unfold Ipv4.digit
      rw [← digitValue_of_range hc]
      exact if_neg (by omega)
    rw [List.cons_append, getIpv4AddrLoop, handleTable_of_decimal hc]
    simp only [hput.step, hdigit, Option.map_some]
    rw [ih hds hle, List.length_cons, show i + 1 + ds.length = i + (ds.length + 1) by omega]

theorem getIpv4AddrLoop_number {put : Nat → Ipv4} (hput : ReadsNumber put)
    (hv : ∀ d, v.fetchNumber d = some (put d)) (hne : ds ≠ [])
    (hds : ∀ c ∈ ds, 48 ≤ c ∧ c ≤ 57) (hle : digitsValue 10 ds ≤ 254) :
    getIpv4AddrLoop v i (ds ++ rest)
      = getIpv4AddrLoop (put (digitsValue 10 ds)) (i + ds.length) rest := by
  obtain ⟨c, ds, rfl⟩ := List.exists_cons_of_ne_nil hne
  obtain ⟨hc, hds⟩ := List.forall_mem_cons.mp hds
  have hvalue : digitsValue 10 (c :: ds)
      = ds.foldl (fun a c => a * 10 + digitValue c) (c.toNat - 48) := by
    unfold digitsValue
    rw [List.foldl_cons, digitValue_of_range hc, Nat.zero_mul, Nat.zero_add]
  rw [hvalue] at hle ⊢
  rw [List.cons_append, getIpv4AddrLoop, handleTable_of_decimal hc]
  simp only [hv]
  rw [getIpv4AddrLoop_digits hput ds hds hle, List.length_cons,
    show i + 1 + ds.length = i + (ds.length + 1) by omega]

theorem getIpv4AddrLoop_dot (hdot : v.fetchDot = some w) :
    getIpv4AddrLoop v i (46 :: rest) = getIpv4AddrLoop w (i + 1) rest := by
  rw [getIpv4AddrLoop, show str2Ipv4HandleTable 46 = .dot from rfl]
  simp only [hdot]

theorem getIpv4AddrLoop_blanks (blanks : List UInt8) : ∀ {i : Nat},
    (∀ c ∈ blanks, c = 9 ∨ c = 10 ∨ c = 13 ∨ c = 32) →
    getIpv4AddrLoop {} i (blanks ++ rest) = getIpv4AddrLoop {} (i + blanks.length) rest := by
  induction blanks with
  | nil =>
    intro i _
    rfl
  | cons c blanks ih =>
    intro i h
    obtain ⟨hc, h⟩ := List.forall_mem_cons.mp h
    rw [List.cons_append, getIpv4AddrLoop, str2Ipv4HandleTable_blank_iff.mpr hc]
    show getIpv4AddrLoop {} (i + 1) (blanks ++ rest) = _
    rw [ih h, List.length_cons, show i + 1 + blanks.length = i + (blanks.length + 1) by omega]

theorem getIpv4AddrLoop_end (hs : v.statu = .number4)
    (htail : ∀ c, rest.head? = some c → c = 9 ∨ c = 10 ∨ c = 13 ∨ c = 32) :
    getIpv4AddrLoop v i rest = some (i, v.addr) := by
  cases rest with
  | nil => rw [getIpv4AddrLoop, if_pos hs]
  | cons c rest =>
    rw [getIpv4AddrLoop, str2Ipv4HandleTable_blank_iff.mpr (htail c rfl)]
    simp only [hs]

end

/-- **文法に合う文字列は、四つ目の数の終わりまで読まれる。** -/
theorem getIpv4Addr_bytes (w : Ipv4Written) : getIpv4Addr w.bytes = some (w.len, w.value) := by
  obtain ⟨⟨h1, d1, v1⟩, ⟨h2, d2, v2⟩, ⟨h3, d3, v3⟩, ⟨h4, d4, v4⟩, -⟩ := by
    simpa only [List.forall_mem_cons] using w.runs
  unfold getIpv4Addr Ipv4Written.bytes Ipv4Written.dotted
  simp only [List.append_assoc, List.cons_append]
  rw [getIpv4AddrLoop_blanks _ w.blanks_blank,
    getIpv4AddrLoop_number
      (show ReadsNumber fun n => { statu := .number1, number1 := n } from ⟨fun _ _ => rfl⟩)
      (fun _ => rfl) h1 d1 v1,
    getIpv4AddrLoop_dot rfl,
    getIpv4AddrLoop_number
      (show ReadsNumber fun n => { statu := .number2, number1 := digitsValue 10 w.n1, number2 := n }
        from ⟨fun _ _ => rfl⟩) (fun _ => rfl) h2 d2 v2,
    getIpv4AddrLoop_dot rfl,
    getIpv4AddrLoop_number
      (show ReadsNumber fun n => { statu := .number3, number1 := digitsValue 10 w.n1
                                   number2 := digitsValue 10 w.n2, number3 := n }
        from ⟨fun _ _ => rfl⟩) (fun _ => rfl) h3 d3 v3,
    getIpv4AddrLoop_dot rfl,
    getIpv4AddrLoop_number
      (show ReadsNumber fun n => { statu := .number4, number1 := digitsValue 10 w.n1
                                   number2 := digitsValue 10 w.n2
                                   number3 := digitsValue 10 w.n3, number4 := n }
        from ⟨fun _ _ => rfl⟩) (fun _ => rfl) h4 d4 v4,
    getIpv4AddrLoop_end rfl w.tail_blank]
  simp only [Ipv4Written.len, Ipv4Written.dotted, List.length_append, List.length_cons,
    Option.some.injEq, Prod.mk.injEq]
  exact ⟨by omega, rfl⟩

/-- **`get_ipv4_addr` は、文法に合う文字列をちょうど受ける。** -/
theorem getIpv4Addr_iff {buf : List UInt8} {r ap : Nat} :
    getIpv4Addr buf = some (r, ap) ↔
      ∃ w : Ipv4Written, buf = w.bytes ∧ r = w.len ∧ ap = w.value := by
  constructor
  · intro h
    obtain ⟨blanks, bs, n1, n2, n3, n4, tail, rfl, hblanks, hd, -⟩ := getIpv4Addr_shape h
    obtain ⟨w, hw⟩ : ∃ w : Ipv4Written, blanks ++ bs = w.bytes := by
      refine ⟨⟨blanks, n1, n2, n3, n4, tail, fun c hc => str2Ipv4HandleTable_blank_iff.mp
        (hblanks c hc), fun n hn => ?_, fun c hc => str2Ipv4HandleTable_blank_iff.mp (hd.tail c hc)⟩,
        ?_⟩
      · obtain ⟨hne, hdec, hlt⟩ := hd.runs n hn
        exact ⟨hne, fun c hc => isDecimal_iff_range.mp (hdec c hc), by omega⟩
      · refine (congrArg (blanks ++ ·) hd.eq).trans ?_
        simp only [Ipv4Written.bytes, Ipv4Written.dotted, List.append_assoc, List.cons_append]
    rw [hw, getIpv4Addr_bytes w, Option.some.injEq, Prod.mk.injEq] at h
    exact ⟨w, hw, h.1.symm, h.2.symm⟩
  · rintro ⟨w, rfl, rfl, rfl⟩
    exact getIpv4Addr_bytes w

/-! ## unsigned int -/

namespace Ipv4

/-- `number = (number * 10) + (c - '0'); if (number >= 255)` を `2 ^ 32` で切り詰めて計算する。 -/
def digitWrapped (n d : Nat) : Option Nat :=
  if (n * 10 + d) % 2 ^ 32 ≥ 255 then none else some ((n * 10 + d) % 2 ^ 32)

def fetchNumberWrapped (v : Ipv4) (d : Nat) : Option Ipv4 :=
  match v.statu with
  | .start => some { v with statu := .number1, number1 := d }
  | .number1 => (digitWrapped v.number1 d).map fun n => { v with number1 := n }
  | .dot1 => some { v with statu := .number2, number2 := d }
  | .number2 => (digitWrapped v.number2 d).map fun n => { v with number2 := n }
  | .dot2 => some { v with statu := .number3, number3 := d }
  | .number3 => (digitWrapped v.number3 d).map fun n => { v with number3 := n }
  | .dot3 => some { v with statu := .number4, number4 := d }
  | .number4 => (digitWrapped v.number4 d).map fun n => { v with number4 := n }

variable {v : Ipv4} {n d : Nat}

theorem digitWrapped_eq (hn : n < 255) (hd : d < 10) : digitWrapped n d = digit n d := by
  unfold digitWrapped digit
  rw [Nat.mod_eq_of_lt (by omega)]

theorem Small.fetchNumberWrapped_eq (h : v.Small) (hd : d < 10) :
    v.fetchNumberWrapped d = v.fetchNumber d := by
  obtain ⟨h1, h2, h3, h4⟩ := h
  have e1 := digitWrapped_eq h1 hd
  have e2 := digitWrapped_eq h2 hd
  have e3 := digitWrapped_eq h3 hd
  have e4 := digitWrapped_eq h4 hd
  unfold Ipv4.fetchNumberWrapped Ipv4.fetchNumber
  cases v.statu <;> simp only [e1, e2, e3, e4]

end Ipv4

def getIpv4AddrLoopWrapped (v : Ipv4) (i : Nat) : List UInt8 → Option (Nat × Nat)
  | [] => if v.statu = .number4 then some (i, v.addr % 2 ^ 32) else none
  | c :: cs =>
    match str2Ipv4HandleTable c with
    | .invalid => none
    | .number =>
      match v.fetchNumberWrapped (c.toNat - 48) with
      | none => none
      | some v => getIpv4AddrLoopWrapped v (i + 1) cs
    | .dot =>
      match v.fetchDot with
      | none => none
      | some v => getIpv4AddrLoopWrapped v (i + 1) cs
    | .blank =>
      match v.statu with
      | .start => getIpv4AddrLoopWrapped v (i + 1) cs
      | .number4 => some (i, v.addr % 2 ^ 32)
      | _ => none

theorem getIpv4AddrLoopWrapped_eq (cs : List UInt8) : ∀ {v : Ipv4} {i : Nat}, v.Small →
    getIpv4AddrLoopWrapped v i cs = getIpv4AddrLoop v i cs := by
  induction cs with
  | nil =>
    intro v i h
    rw [getIpv4AddrLoopWrapped, getIpv4AddrLoop, Nat.mod_eq_of_lt h.addr_lt]
  | cons c cs ih =>
    intro v i h
    rw [getIpv4AddrLoopWrapped, getIpv4AddrLoop, Nat.mod_eq_of_lt h.addr_lt]
    cases hc : str2Ipv4HandleTable c with
    | invalid => rfl
    | number =>
      have hd : c.toNat - 48 < 10 := by
        have hdec := isDecimal_iff_range.mp (str2Ipv4HandleTable_number_iff.mp hc)
        have hle := UInt8.le_iff_toNat_le.mp hdec.2
        rw [show (57 : UInt8).toNat = 57 from rfl] at hle
        omega
      dsimp only
      rw [h.fetchNumberWrapped_eq hd]
      cases hf : v.fetchNumber (c.toNat - 48) with
      | none => rfl
      | some w => exact ih (h.fetchNumber (by omega) hf)
    | dot =>
      dsimp only
      cases hf : v.fetchDot with
      | none => rfl
      | some w => exact ih (h.fetchDot hf)
    | blank =>
      dsimp only
      cases v.statu <;> first
        | exact ih h
        | rfl

theorem getIpv4AddrLoopWrapped_init (buf : List UInt8) :
    getIpv4AddrLoopWrapped {} 0 buf = getIpv4Addr buf :=
  getIpv4AddrLoopWrapped_eq buf ⟨by decide, by decide, by decide, by decide⟩

end Esq
