import Mathlib.Data.List.TakeWhile
import Mathlib.Data.UInt

/-!
# 文字列の読み取り

`libs/sscanf/` の手書きの parser。文字は byte で、`char *` の文字列は NUL を含まない byte の列である。

どの parser も、表で文字の種類を引き、状態を一つずつ進める。途中で打ち切る `return 0` と
`return -1` は `none` で表す。
-/

namespace Esq

/-! ## 文字列 -/

/-- NUL で終わる文字列。終端の NUL は含まない。 -/
def CStr := { s : List UInt8 // (0 : UInt8) ∉ s }
deriving DecidableEq

namespace CStr

def bytes (s : CStr) : List UInt8 := s.val

def empty : CStr := ⟨[], by simp⟩

instance : Inhabited CStr := ⟨empty⟩

def ofBytes (s : List UInt8) : CStr := ⟨s.takeWhile (· ≠ 0), fun h => by
  have := List.mem_takeWhile_imp h
  simp at this⟩

def strnlen (s : CStr) (n : Nat) : Nat := min s.bytes.length n

end CStr

/-! ## `get_ipv4_addr` -/

inductive Ipv4Char where
  | invalid
  | number
  | dot
  | blank
deriving DecidableEq, Repr

def str2Ipv4HandleTable (c : UInt8) : Ipv4Char :=
  if 48 ≤ c ∧ c ≤ 57 then .number
  else if c = 46 then .dot
  else if c = 9 ∨ c = 10 ∨ c = 13 ∨ c = 32 then .blank
  else .invalid

inductive Ipv4Statu where
  | start
  | number1
  | dot1
  | number2
  | dot2
  | number3
  | dot3
  | number4
deriving DecidableEq, Repr

structure Ipv4 where
  statu : Ipv4Statu := .start
  number1 : Nat := 0
  number2 : Nat := 0
  number3 : Nat := 0
  number4 : Nat := 0
deriving DecidableEq, Repr

namespace Ipv4

/-- 二桁目からは 255 以上になると打ち切る。 -/
def digit (n d : Nat) : Option Nat := if n * 10 + d ≥ 255 then none else some (n * 10 + d)

def fetchNumber (v : Ipv4) (d : Nat) : Option Ipv4 :=
  match v.statu with
  | .start => some { v with statu := .number1, number1 := d }
  | .number1 => (digit v.number1 d).map fun n => { v with number1 := n }
  | .dot1 => some { v with statu := .number2, number2 := d }
  | .number2 => (digit v.number2 d).map fun n => { v with number2 := n }
  | .dot2 => some { v with statu := .number3, number3 := d }
  | .number3 => (digit v.number3 d).map fun n => { v with number3 := n }
  | .dot3 => some { v with statu := .number4, number4 := d }
  | .number4 => (digit v.number4 d).map fun n => { v with number4 := n }

def fetchDot (v : Ipv4) : Option Ipv4 :=
  match v.statu with
  | .number1 => some { v with statu := .dot1 }
  | .number2 => some { v with statu := .dot2 }
  | .number3 => some { v with statu := .dot3 }
  | _ => none

def addr (v : Ipv4) : Nat :=
  v.number1 * 2 ^ 24 + v.number2 * 2 ^ 16 + v.number3 * 2 ^ 8 + v.number4

end Ipv4

/-- `get_ipv4_addr` の loop。読んだ長さと番地を返す。 -/
def getIpv4AddrLoop (v : Ipv4) (i : Nat) : List UInt8 → Option (Nat × Nat)
  | [] => if v.statu = .number4 then some (i, v.addr) else none
  | c :: cs =>
    match str2Ipv4HandleTable c with
    | .invalid => none
    | .number =>
      match v.fetchNumber (c.toNat - 48) with
      | none => none
      | some v => getIpv4AddrLoop v (i + 1) cs
    | .dot =>
      match v.fetchDot with
      | none => none
      | some v => getIpv4AddrLoop v (i + 1) cs
    | .blank =>
      match v.statu with
      | .start => getIpv4AddrLoop v (i + 1) cs
      | .number4 => some (i, v.addr)
      | _ => none

def getIpv4Addr (buf : List UInt8) : Option (Nat × Nat) := getIpv4AddrLoop {} 0 buf

structure Ipv4.Small (v : Ipv4) : Prop where
  number1 : v.number1 < 255
  number2 : v.number2 < 255
  number3 : v.number3 < 255
  number4 : v.number4 < 255

theorem Ipv4.digit_lt {n d m : Nat} (h : digit n d = some m) : m < 255 := by
  unfold digit at h
  split at h
  · cases h
  · cases h
    omega

theorem Ipv4.Small.fetchNumber {v w : Ipv4} {d : Nat} (h : v.Small) (hd : d < 255)
    (hw : v.fetchNumber d = some w) : w.Small := by
  obtain ⟨h1, h2, h3, h4⟩ := h
  unfold Ipv4.fetchNumber at hw
  split at hw
  all_goals first
    | (cases hw; exact ⟨by assumption, by assumption, by assumption, by assumption⟩)
    | (obtain ⟨m, hm, rfl⟩ := Option.map_eq_some_iff.mp hw
       have := Ipv4.digit_lt hm
       exact ⟨by assumption, by assumption, by assumption, by assumption⟩)

theorem Ipv4.Small.fetchDot {v w : Ipv4} (h : v.Small) (hw : v.fetchDot = some w) : w.Small := by
  obtain ⟨h1, h2, h3, h4⟩ := h
  unfold Ipv4.fetchDot at hw
  split at hw
  all_goals cases hw
  all_goals exact ⟨h1, h2, h3, h4⟩

theorem Ipv4.Small.addr_lt {v : Ipv4} (h : v.Small) : v.addr < 2 ^ 32 := by
  obtain ⟨h1, h2, h3, h4⟩ := h
  unfold Ipv4.addr
  omega

theorem getIpv4AddrLoop_lt : ∀ (cs : List UInt8) {v : Ipv4} {i r ap : Nat}, v.Small →
    getIpv4AddrLoop v i cs = some (r, ap) → ap < 2 ^ 32
  | [], v, i, r, ap, hv, h => by
    rw [getIpv4AddrLoop] at h
    split at h
    · cases h
      exact hv.addr_lt
    · cases h
  | c :: cs, v, i, r, ap, hv, h => by
    rw [getIpv4AddrLoop] at h
    split at h
    · cases h
    · split at h
      · cases h
      · next w hw =>
        have hd : c.toNat - 48 < 255 := by
          have := c.toNat_lt
          omega
        exact getIpv4AddrLoop_lt cs (hv.fetchNumber hd hw) h
    · split at h
      · cases h
      · next w hw => exact getIpv4AddrLoop_lt cs (hv.fetchDot hw) h
    · split at h
      · exact getIpv4AddrLoop_lt cs hv h
      · cases h
        exact hv.addr_lt
      · cases h

theorem getIpv4Addr_lt {buf : List UInt8} {r ap : Nat} (h : getIpv4Addr buf = some (r, ap)) :
    ap < 2 ^ 32 :=
  getIpv4AddrLoop_lt buf ⟨by decide, by decide, by decide, by decide⟩ h

/-! ## `get_hash_string` -/

inductive HashChar where
  | invalid
  | number
  | blank
  | endMark
deriving DecidableEq, Repr

def hashStringHandleTable (c : UInt8) : HashChar :=
  if 48 ≤ c ∧ c ≤ 57 then .number
  else if 65 ≤ c ∧ c ≤ 70 then .number
  else if 97 ≤ c ∧ c ≤ 102 then .number
  else if c = 88 ∨ c = 120 then .endMark
  else if c = 9 ∨ c = 10 ∨ c = 13 ∨ c = 32 then .blank
  else .invalid

/--
`get_hash_string` の loop。`start` は `S_HASH` に入った位置で、`none` は `S_START` である。

`x` に着いたら、読んだ長さと、始まりと、`x` を除く長さを返す。
`S_START` のまま `x` に着いたときの始まりは 0 なので、先頭の空白も長さに数えられる。
-/
def getHashStringLoop (start : Option Nat) (i : Nat) : List UInt8 → Option (Nat × Nat × Nat)
  | [] => none
  | c :: cs =>
    match hashStringHandleTable c with
    | .invalid => none
    | .number => getHashStringLoop (some (start.getD i)) (i + 1) cs
    | .blank => if start.isSome then none else getHashStringLoop start (i + 1) cs
    | .endMark =>
      if (i - start.getD 0) % 2 = 1 then none
      else some (i + 1, start.getD 0, i - start.getD 0)

def getHashString (buf : List UInt8) : Option (Nat × Nat × Nat) := getHashStringLoop none 0 buf

/-- `get_hash_string` が読んだ文字列は、最初の `x` で終わる。 -/
structure HashStringSplit (buf : List UInt8) (hashLen : Nat) where
  digits : List UInt8
  mark : UInt8
  rest : List UInt8
  eq : buf = digits ++ mark :: rest
  digits_ne : ∀ c ∈ digits, hashStringHandleTable c ≠ .endMark
  mark_eq : hashStringHandleTable mark = .endMark
  length : digits.length = hashLen

theorem HashStringSplit.mark_mem {buf : List UInt8} {n : Nat} (x : HashStringSplit buf n) :
    x.mark ∈ buf := by
  obtain ⟨digits, mark, rest, rfl, -, -, -⟩ := x
  simp

theorem getHashStringLoop_split : ∀ (cs : List UInt8) {start : Option Nat} {i r s len : Nat},
    start.getD 0 ≤ i → getHashStringLoop start i cs = some (r, s, len) →
    ∃ n, Nonempty (HashStringSplit cs n) ∧ s + len = i + n ∧ r = i + n + 1 ∧ len % 2 = 0
  | [], _, _, _, _, _, _, h => by cases h
  | c :: cs, start, i, r, s, len, hi, h => by
    have hcons : ∀ {start' : Option Nat}, start'.getD 0 ≤ i + 1 →
        hashStringHandleTable c ≠ .endMark →
        getHashStringLoop start' (i + 1) cs = some (r, s, len) →
        ∃ n, Nonempty (HashStringSplit (c :: cs) n) ∧ s + len = i + n ∧ r = i + n + 1 ∧
          len % 2 = 0 := by
      intro start' hi' hc h'
      obtain ⟨n, ⟨x⟩, hsum, hr, heven⟩ := getHashStringLoop_split cs hi' h'
      refine ⟨n + 1, ⟨c :: x.digits, x.mark, x.rest, ?_, ?_, x.mark_eq, ?_⟩, by omega, by omega,
        heven⟩
      · exact congrArg (c :: ·) x.eq
      · intro d hd
        rcases List.mem_cons.mp hd with rfl | hd
        · exact hc
        · exact x.digits_ne d hd
      · rw [List.length_cons, x.length]
    rw [getHashStringLoop] at h
    split at h
    · cases h
    · next hc =>
      refine hcons ?_ (by simp [hc]) h
      cases start with
      | none => simp
      | some s0 =>
        simp only [Option.getD_some] at hi ⊢
        omega
    · next hc =>
      split at h
      · cases h
      · exact hcons (by omega) (by simp [hc]) h
    · next hc =>
      split at h
      · cases h
      · next hodd =>
        cases h
        exact ⟨0, ⟨[], c, cs, rfl, by simp, hc, rfl⟩, by omega, by omega, by omega⟩

theorem getHashString_split {buf : List UInt8} {r s len : Nat}
    (h : getHashString buf = some (r, s, len)) :
    Nonempty (HashStringSplit buf (s + len)) ∧ r = s + len + 1 ∧ len % 2 = 0 := by
  obtain ⟨n, hx, hsum, hr, heven⟩ := getHashStringLoop_split buf (Nat.zero_le _) h
  have hn : s + len = n := by omega
  rw [hn]
  exact ⟨hx, by omega, heven⟩

def hashString2BinTable (c : UInt8) : UInt8 :=
  if 48 ≤ c ∧ c ≤ 57 then c - 48
  else if 65 ≤ c ∧ c ≤ 70 then c - 55
  else if 97 ≤ c ∧ c ≤ 102 then c - 87
  else 0

def hashStr2Bin : List UInt8 → Option (List UInt8)
  | [] => some []
  | [_] => none
  | h :: l :: cs =>
    (hashStr2Bin cs).map fun bs => (hashString2BinTable h * 16 + hashString2BinTable l) :: bs

theorem hashStr2Bin_length : ∀ (s : List UInt8) {bs : List UInt8},
    hashStr2Bin s = some bs → bs.length = s.length / 2
  | [], bs, h => by
    cases h
    rfl
  | [_], bs, h => by cases h
  | a :: b :: cs, bs, h => by
    rw [hashStr2Bin] at h
    cases hcs : hashStr2Bin cs with
    | none => simp [hcs] at h
    | some ds =>
      simp only [hcs, Option.map_some, Option.some.injEq] at h
      have ih := hashStr2Bin_length cs hcs
      rw [← h]
      simp only [List.length_cons]
      omega

/-! ## `get_integer_1000000` -/

def numberLimit : Nat := 10000000

/-- `get_integer_1000000` の loop。`v` は `S_NUMBER` で読んだ値で、`none` は `S_START` である。 -/
def getInteger1000000Loop (v : Option Nat) (i : Nat) : List UInt8 → Option (Nat × Nat)
  | [] => v.map fun n => (i, n)
  | c :: cs =>
    if 48 ≤ c ∧ c ≤ 57 then
      match v with
      | none => getInteger1000000Loop (some (c.toNat - 48)) (i + 1) cs
      | some n =>
        if n * 10 + (c.toNat - 48) > numberLimit then none
        else getInteger1000000Loop (some (n * 10 + (c.toNat - 48))) (i + 1) cs
    else if c = 9 ∨ c = 10 ∨ c = 13 ∨ c = 32 then
      match v with
      | none => getInteger1000000Loop none (i + 1) cs
      | some n => some (i, n)
    else none

def getInteger1000000 (buf : List UInt8) : Option (Nat × Nat) := getInteger1000000Loop none 0 buf

end Esq
