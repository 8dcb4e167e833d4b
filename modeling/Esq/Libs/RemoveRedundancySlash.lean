import Esq.Libs.PathIsVerySafe

/-!
# 余分な `/` を除く

`libs/remove-redundancy-slash/remove-redundancy-slash.c`。

buffer をその場で書き換える。書く位置は読む位置を越えないので、読むのはいつも元の byte である
（`removeRedundancySlash_eq`）。
-/

namespace Esq

open Infra

/-- `remove_redundancy_slash` の loop。`n` は `b + i` から領域の終わりまでの byte 数である。 -/
def removeRedundancySlashLoop (afterSlash : Bool) (i o : Nat) (b : List UInt8) : Nat →
    Nat × List UInt8
  | 0 => (o, b)
  | n + 1 =>
    let c := b.getD i 0
    if isSlash c then removeRedundancySlashLoop true (i + 1) o b n
    else if c = 0 then (o, b.set o 0)
    else if afterSlash then
      removeRedundancySlashLoop false (i + 1) (o + 2) ((b.set o 47).set (o + 1) c) n
    else removeRedundancySlashLoop false (i + 1) (o + 1) (b.set o c) n

def removeRedundancySlash (b : List UInt8) : Nat × List UInt8 :=
  removeRedundancySlashLoop false 0 0 b b.length

section

variable {orig : List UInt8}

theorem removeRedundancySlashLoop_eq : ∀ (n : Nat) {k : Bool} {i : Nat} {u : List UInt8},
    0 ∈ orig.drop i → orig.length ≤ i + n → u.length ≤ i → (k = true → u.length < i) →
    removeRedundancySlashLoop k i u.length (u ++ orig.drop u.length) n
      = ((u ++ squeeze isSlash 47 k (cstring (orig.drop i))).length,
          (u ++ squeeze isSlash 47 k (cstring (orig.drop i))) ++
            0 :: orig.drop ((u ++ squeeze isSlash 47 k (cstring (orig.drop i))).length + 1))
  | 0, k, i, u, hzero, hn, _, _ => by
    rw [List.drop_eq_nil_of_le (by omega)] at hzero
    cases hzero
  | n + 1, k, i, u, hzero, hn, hout, hafter => by
    have hi : i < orig.length := by
      by_contra hno
      rw [List.drop_eq_nil_of_le (by omega)] at hzero
      cases hzero
    have hget : orig.getD i 0 = orig[i] := by
      rw [List.getD_eq_getElem?_getD, List.getElem?_eq_getElem hi, Option.getD_some]
    rw [List.drop_eq_getElem_cons hi] at hzero ⊢
    unfold removeRedundancySlashLoop
    rw [getD_unwritten hout, hget]
    dsimp only
    by_cases hslash : isSlash orig[i] = true
    · -- `/` は読み飛ばす
      have hne : orig[i] ≠ 0 := fun he => by
        rw [he] at hslash
        exact absurd hslash (by decide)
      rw [if_pos hslash, cstring_cons hne, squeeze, if_pos hslash]
      refine removeRedundancySlashLoop_eq n ((List.mem_cons.mp hzero).resolve_left hne.symm)
        (by omega)
        (by omega) fun _ => by omega
    · rw [if_neg hslash]
      by_cases hz : orig[i] = 0
      · -- NUL で終わる
        rw [if_pos hz, hz, cstring_zero, squeeze, List.append_nil, set_unwritten (by omega),
          List.length_append, List.append_assoc]
        rfl
      · rw [if_neg hz, cstring_cons hz, squeeze, if_neg hslash]
        have hrest : 0 ∈ orig.drop (i + 1) := (List.mem_cons.mp hzero).resolve_left (Ne.symm hz)
        cases k with
        | true =>
          have hlt := hafter rfl
          have hlen : (u ++ [47]).length = u.length + 1 := List.length_append
          have hlen' : (u ++ [47] ++ [orig[i]]).length = u.length + 2 := by
            rw [List.length_append, hlen]
            rfl
          rw [if_pos rfl, set_unwritten (by omega), ← hlen, set_unwritten (by omega)]
          have ih := removeRedundancySlashLoop_eq n (k := false) (u := u ++ [47] ++ [orig[i]])
            hrest (by omega) (by omega) (fun h => by cases h)
          rw [hlen'] at ih
          rw [hlen', ih]
          simp only [if_true, List.append_assoc, List.cons_append, List.nil_append]
        | false =>
          have hlen : (u ++ [orig[i]]).length = u.length + 1 := List.length_append
          have ih := removeRedundancySlashLoop_eq n (k := false) (u := u ++ [orig[i]])
            hrest (by omega) (by omega) (fun h => by cases h)
          rw [if_neg (by decide), set_unwritten (by omega), ← hlen, ih]
          simp only [Bool.false_eq_true, if_false, List.append_assoc, List.cons_append,
            List.nil_append]

/-- **buffer の文字列から余分な `/` を除いたものが残り、その後ろは変わらない。** -/
theorem removeRedundancySlash_eq {b : List UInt8} (hb : 0 ∈ b) :
    removeRedundancySlash b = ((squeeze isSlash 47 false (cstring b)).length,
      squeeze isSlash 47 false (cstring b) ++
        0 :: b.drop ((squeeze isSlash 47 false (cstring b)).length + 1)) :=
  removeRedundancySlashLoop_eq (u := []) b.length hb (Nat.le_add_left _ _) le_rfl
    fun h => by cases h

theorem cstring_removeRedundancySlash {b : List UInt8} (hb : 0 ∈ b) :
    cstring (removeRedundancySlash b).2 = squeeze isSlash 47 false (cstring b) := by
  rw [removeRedundancySlash_eq hb]
  refine cstring_append_zero (fun hm => ?_) _
  rcases mem_squeeze hm with he | ⟨hm, -⟩
  · exact absurd he (by decide)
  · exact zero_notMem_cstring b hm

/--
**残るのは、`/` と `\` でない部分を一つの `/` で繋いだものである。元が区切りで始まり、部分があれば、`/` が前に付く。
`/` では終わらない。返すのはその長さであり、もう一度除いても変わらない。**
-/
theorem removeRedundancySlash_normal {b : List UInt8} (hb : 0 ∈ b) :
    cstring (removeRedundancySlash b).2 =
        (if (cstring b).head?.any isSlash = true ∧ components isSlash (cstring b) ≠ []
          then [47] else []) ++ [47].intercalate (components isSlash (cstring b)) ∧
      (cstring (removeRedundancySlash b).2).getLast? ≠ some 47 ∧
      (removeRedundancySlash b).1 = (cstring (removeRedundancySlash b).2).length ∧
      removeRedundancySlash (removeRedundancySlash b).2 = removeRedundancySlash b := by
  have hstr := cstring_removeRedundancySlash hb
  refine ⟨by rw [hstr, squeeze_eq_intercalate], fun hlast => ?_, ?_, ?_⟩
  · rw [hstr] at hlast
    exact absurd (getLast?_squeeze 47 hlast) (by decide)
  · rw [hstr, removeRedundancySlash_eq hb]
  · have hb' : 0 ∈ (removeRedundancySlash b).2 := by
      rw [removeRedundancySlash_eq hb]
      exact List.mem_append_right _ List.mem_cons_self
    rw [removeRedundancySlash_eq hb', hstr, squeeze_squeeze (by decide),
      removeRedundancySlash_eq hb]
    refine congrArg _ (congrArg _ (congrArg _ ?_))
    rw [List.drop_length_add_append]
    rfl

/-- `\a//b/` は `/a/b` になる。 -/
theorem removeRedundancySlash_normal_run :
    cstring (removeRedundancySlash [92, 97, 47, 47, 98, 47, 0]).2 = [47, 97, 47, 98] :=
  (removeRedundancySlash_normal (b := [92, 97, 47, 47, 98, 47, 0]) (by decide)).1.trans (by decide)

end

end Esq
