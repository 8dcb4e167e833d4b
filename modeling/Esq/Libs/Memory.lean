import Mathlib.Data.UInt
import Mathlib.Data.List.TakeWhile

/-!
# buffer

`memcpy` と `snprintf`、NUL で終わる文字列の読み方。buffer は、それを指す位置から領域の終わりまでの byte の列である。
-/

namespace Esq

def splice (buf : List UInt8) (offset : Nat) (bytes : List UInt8) : List UInt8 :=
  buf.take offset ++ bytes ++ buf.drop (offset + bytes.length)

def cstring (buf : List UInt8) : List UInt8 := buf.takeWhile (· ≠ 0)

def strn (buf : List UInt8) (max : Nat) : List UInt8 := cstring (buf.take max)

/-- `unsigned int c = buf[i]`。`char` は符号つきである。 -/
def charToUInt (c : UInt8) : UInt32 := c.toInt8.toInt32.toUInt32

def ascii (s : String) : List UInt8 := s.toList.map fun c => UInt8.ofNat c.toNat

/-- `snprintf(buf + at, size, ...)`。`text` は書式から作った文字列である。 -/
def snprintf (buf : List UInt8) (pos size : Nat) (text : List UInt8) : Int × List UInt8 :=
  if size = 0 then (text.length, buf)
  else (text.length, splice buf pos (text.take (size - 1) ++ [0]))

def truncated (r : Int) (size : Nat) : Bool := r ≤ 0 || (size : Int) ≤ r

theorem ascii_length (l : List Char) : (ascii (String.ofList l)).length = l.length := by
  unfold ascii
  rw [List.length_map, String.toList_ofList]

section

variable {s buf orig out : List UInt8} {i : Nat}

theorem splice_append (s buf w : List UInt8) :
    splice (s ++ buf) s.length w = s ++ (w ++ buf.drop w.length) := by
  unfold splice
  rw [List.take_left, List.drop_append, List.drop_eq_nil_of_le (Nat.le_add_right _ _),
    Nat.add_sub_cancel_left, List.nil_append, List.append_assoc]

theorem set_append (s buf : List UInt8) (k : Nat) (c : UInt8) :
    (s ++ buf).set (s.length + k) c = s ++ buf.set k c := by
  rw [List.set_append_right _ _ (Nat.le_add_right _ _), Nat.add_sub_cancel_left]

/-!
その場で書き換える buffer。`out` を書いたとき、その後ろは元のままである。
-/

theorem getD_unwritten (hi : out.length ≤ i) :
    (out ++ orig.drop out.length).getD i 0 = orig.getD i 0 := by
  rw [List.getD_eq_getElem?_getD, List.getElem?_append_right hi, List.getElem?_drop,
    Nat.add_sub_cancel' hi, List.getD_eq_getElem?_getD]

theorem set_unwritten (h : out.length < orig.length) (c : UInt8) :
    (out ++ orig.drop out.length).set out.length c
      = (out ++ [c]) ++ orig.drop (out ++ [c]).length := by
  rw [List.set_append_right _ _ le_rfl, Nat.sub_self, List.drop_eq_getElem_cons h,
    List.set_cons_zero,
    List.length_append, List.append_assoc]
  rfl

@[simp] theorem cstring_nil : cstring [] = [] := rfl

theorem cstring_append (hs : 0 ∉ s) (buf : List UInt8) : cstring (s ++ buf) = s ++ cstring buf :=
  List.takeWhile_append_of_pos fun _ hc => decide_eq_true fun he => hs (he ▸ hc)

@[simp] theorem cstring_zero (buf : List UInt8) : cstring (0 :: buf) = [] :=
  List.takeWhile_cons_of_neg (by simp)

theorem cstring_cons {c : UInt8} (hc : c ≠ 0) (buf : List UInt8) :
    cstring (c :: buf) = c :: cstring buf :=
  List.takeWhile_cons_of_pos (decide_eq_true hc)

theorem cstring_append_zero (hs : 0 ∉ s) (buf : List UInt8) : cstring (s ++ 0 :: buf) = s := by
  rw [cstring_append hs, cstring_zero, List.append_nil]

theorem cstring_append_zero' (s buf : List UInt8) : cstring (s ++ 0 :: buf) = cstring s := by
  induction s with
  | nil => rw [List.nil_append, cstring_zero, cstring_nil]
  | cons c s ih =>
    by_cases hc : c = 0
    · rw [hc, List.cons_append, cstring_zero, cstring_zero]
    · rw [List.cons_append, cstring_cons hc, cstring_cons hc, ih]

theorem cstring_append_cases (s buf : List UInt8) :
    cstring (s ++ buf) = cstring s ∨ cstring (s ++ buf) = cstring s ++ cstring buf := by
  by_cases hs : 0 ∈ s
  · obtain ⟨u, v, rfl⟩ := List.append_of_mem hs
    rw [List.append_assoc, List.cons_append, cstring_append_zero', cstring_append_zero']
    exact Or.inl rfl
  · rw [cstring_append hs, show cstring s = s by simpa using cstring_append hs []]
    exact Or.inr rfl

theorem strn_append_zero {max : Nat} (hs : 0 ∉ s) (hlt : s.length < max) (rest : List UInt8) :
    strn (s ++ 0 :: rest) max = s := by
  obtain ⟨k, rfl⟩ := Nat.exists_eq_add_of_lt hlt
  unfold strn
  rw [List.take_append, List.take_of_length_le (by omega),
    show s.length + k + 1 - s.length = k + 1 by omega, List.take_succ_cons]
  exact cstring_append_zero hs _

theorem length_cstring_le (buf : List UInt8) : (cstring buf).length ≤ buf.length :=
  (List.takeWhile_sublist _).length_le

theorem zero_notMem_cstring (buf : List UInt8) : 0 ∉ cstring buf := by
  intro h
  have := List.mem_takeWhile_imp h
  simp at this

end

end Esq
