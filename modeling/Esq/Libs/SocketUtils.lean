import Esq.Infra.LittleEndian
import Esq.Libs.Memory

/-!
# socket に書く

`libs/os-utils/socket-utils.c` の `os_write_b`。`bee_monkey` が返事の後ろを送るのに使う。

loop は `offset` を進めるが、`write` にはいつも `buf` と `len` を渡す。一部だけ書けたときは、次の `write` が
`buf` の先頭から書き直すので、`0` を返しても、書いた byte が `buf` と同じとは限らない。
-/

namespace Esq

open Infra

/-- `buf` と `len`。`buf` の領域は `len` byte より短くない。 -/
structure SocketBuffer where
  bytes : List UInt8
  len : Int
  le_length : len ≤ bytes.length
  int32 : toInt32 len = len

/-- `errno`。`EAGAIN` と `EWOULDBLOCK` のほかは区別しない。 -/
inductive WriteErrno where
  | eagain
  | ewouldblock
  | other
  deriving DecidableEq

/--
`write(fd, buf, len)` の戻り値と、戻ったときの `errno`。

`write` が `errno` を書くのは `-1` を返すときだけなので、他のときは前の値が残っている。
-/
structure SocketWrite (len : Int) where
  r : Int
  errno : WriteErrno
  le_len : r ≤ len

/-- `write` に渡した範囲。`start` は `buf` からの位置である。 -/
structure WriteCall where
  start : Nat
  count : Int

/-- `os_write_b` のしたこと。答えを待っている間は `result` が `none` である。 -/
structure OsWritten where
  result : Option Int
  calls : List WriteCall := []
  written : List UInt8 := []

def OsWritten.after (call : WriteCall) (bytes : List UInt8) (w : OsWritten) : OsWritten :=
  { result := w.result, calls := call :: w.calls, written := bytes ++ w.written }

/-- `os_write_b` の loop。`answers` は、これからの `write` の答えである。 -/
def osWriteBLoop (b : SocketBuffer) : List (SocketWrite b.len) → Int → OsWritten
  | [], offset =>
    if offset < b.len then { result := none, calls := [{ start := 0, count := b.len }] }
    else { result := some 0 }
  | a :: answers, offset =>
    if offset < b.len then
      let call : WriteCall := { start := 0, count := b.len }
      if a.r ≤ 0 then
        if a.errno = .eagain then (osWriteBLoop b answers offset).after call []
        else if a.errno = .ewouldblock then (osWriteBLoop b answers offset).after call []
        else { result := some (-1), calls := [call] }
      else
        -- kernel が取ったのは、`buf` の先頭からの `r` byte である
        (osWriteBLoop b answers (toInt32 (offset + a.r))).after call (b.bytes.take a.r.toNat)
    else { result := some 0 }

def osWriteB (b : SocketBuffer) (answers : List (SocketWrite b.len)) : OsWritten :=
  osWriteBLoop b answers 0

/-- `0` を返したら `buf[0..len)` をこの順に書いていて、`write` に渡した範囲は `buf` の中にある。 -/
structure OsWriteBExact (b : SocketBuffer) (answers : List (SocketWrite b.len)) : Prop where
  exact : (osWriteB b answers).result = some 0 →
    (osWriteB b answers).written = b.bytes.take b.len.toNat
  inside : ∀ c ∈ (osWriteB b answers).calls, 0 ≤ c.count ∧ c.start + c.count ≤ b.bytes.length

/-! ## 受け取られた長さ -/

/-- `len` に届くまでに受け取られた長さ。届く前に諦めるか、答えが尽きるときは `none` である。 -/
def takenLengths {len : Int} : List (SocketWrite len) → Int → Option (List Nat)
  | [], offset => if offset < len then none else some []
  | a :: answers, offset =>
    if offset < len then
      if a.r ≤ 0 then
        if a.errno = .other then none else takenLengths answers offset
      else (takenLengths answers (toInt32 (offset + a.r))).map (a.r.toNat :: ·)
    else some []

/-- どの一切れも、`buf` のその位置に、`buf` の先頭と同じ byte がある。 -/
def PiecesAgree (buf : List UInt8) : List Nat → Nat → Prop
  | [], _ => True
  | n :: ns, offset =>
    (buf.drop offset).take n = buf.take n ∧ PiecesAgree buf ns (offset + n)

/-- 受け取られた長さの和がちょうど `len` で、どの一切れも `buf` の先頭と同じ byte である。 -/
def FitsWholly (b : SocketBuffer) (answers : List (SocketWrite b.len)) : Prop :=
  ∀ ns, takenLengths answers 0 = some ns →
    ns.sum = b.len.toNat ∧ PiecesAgree (b.bytes.take b.len.toNat) ns 0

section

variable {b : SocketBuffer}

/-- **`0` を返すのは、受け取られた長さが `len` に届いたときで、そのとき書いたのは先頭の切れ端の列である。** -/
theorem osWriteBLoop_spec : ∀ (answers : List (SocketWrite b.len)) (offset : Int),
    match takenLengths answers offset with
    | none => (osWriteBLoop b answers offset).result ≠ some 0
    | some ns => (osWriteBLoop b answers offset).result = some 0 ∧
      (osWriteBLoop b answers offset).written = ns.flatMap fun n => b.bytes.take n
  | [], offset => by
    unfold takenLengths osWriteBLoop
    by_cases h : offset < b.len
    · rw [if_pos h, if_pos h]
      exact nofun
    · rw [if_neg h, if_neg h]
      exact ⟨rfl, rfl⟩
  | a :: answers, offset => by
    unfold takenLengths osWriteBLoop
    by_cases h : offset < b.len
    swap
    · rw [if_neg h, if_neg h]
      exact ⟨rfl, rfl⟩
    rw [if_pos h, if_pos h]
    by_cases hr : a.r ≤ 0
    · rw [if_pos hr]
      have ih := osWriteBLoop_spec answers offset
      cases he : a.errno
      case other => simp [hr]
      all_goals simpa [hr, OsWritten.after] using ih
    · rw [if_neg hr]
      have ih := osWriteBLoop_spec answers (toInt32 (offset + a.r))
      cases hns : takenLengths answers (toInt32 (offset + a.r)) with
      | none =>
        rw [hns] at ih
        simpa [hr, OsWritten.after] using ih
      | some ns =>
        rw [hns] at ih
        simpa [hr, OsWritten.after] using ih

theorem osWriteBLoop_calls : ∀ (answers : List (SocketWrite b.len)) (offset : Int),
    ∀ c ∈ (osWriteBLoop b answers offset).calls, c.start = 0 ∧ c.count = b.len
  | [], offset => by
    unfold osWriteBLoop
    split <;> simp
  | a :: answers, offset => by
    unfold osWriteBLoop
    have hstay := osWriteBLoop_calls answers offset
    have hmove := osWriteBLoop_calls answers (toInt32 (offset + a.r))
    split
    · split
      · split
        · simpa [OsWritten.after] using hstay
        · split
          · simpa [OsWritten.after] using hstay
          · simp
      · simpa [OsWritten.after] using hmove
    · simp

theorem osWriteB_calls_of_le (h : b.len ≤ 0) (answers : List (SocketWrite b.len)) :
    (osWriteB b answers).calls = [] := by
  unfold osWriteB
  cases answers <;> rw [osWriteBLoop, if_neg (not_lt.mpr h)]

end

/-! ## 切れ端の列 -/

theorem flatMap_take_eq_drop_iff {buf : List UInt8} : ∀ {ns : List Nat} {offset : Nat},
    offset ≤ buf.length → (∀ n ∈ ns, n ≤ buf.length) →
    (ns.flatMap (fun n => buf.take n) = buf.drop offset ↔
      offset + ns.sum = buf.length ∧ PiecesAgree buf ns offset)
  | [], offset, ho, _ => by
    rw [List.flatMap_nil, eq_comm, List.drop_eq_nil_iff]
    simp only [List.sum_nil, PiecesAgree, and_true]
    omega
  | n :: ns, offset, ho, hns => by
    have hn := hns n List.mem_cons_self
    have hlen : (buf.take n).length = n := List.length_take_of_le hn
    rw [List.flatMap_cons, List.sum_cons, PiecesAgree, ← Nat.add_assoc]
    by_cases hfit : offset + n ≤ buf.length
    · rw [and_left_comm,
        ← flatMap_take_eq_drop_iff hfit fun m hm => hns m (List.mem_cons_of_mem n hm)]
      -- `drop offset` を `n` で切って、切れ端と残りを別々に比べる
      have hsplit : buf.drop offset = (buf.drop offset).take n ++ buf.drop (offset + n) := by
        rw [← List.drop_drop, List.take_append_drop]
      have hcut : ((buf.drop offset).take n).length = n :=
        List.length_take_of_le (by rw [List.length_drop]; omega)
      constructor
      · intro h
        rw [hsplit] at h
        obtain ⟨hhead, htail⟩ := List.append_inj h (hlen.trans hcut.symm)
        exact ⟨hhead.symm, htail⟩
      · rintro ⟨hhead, htail⟩
        rw [hsplit, hhead, htail]
    · constructor
      · intro h
        have hl := congrArg List.length h
        rw [List.length_append, hlen, List.length_drop] at hl
        omega
      · rintro ⟨hsum, -⟩
        omega

theorem takenLengths_mem {len : Int} : ∀ {answers : List (SocketWrite len)} {offset : Int}
    {ns : List Nat}, takenLengths answers offset = some ns → ∀ n ∈ ns, 0 < n ∧ n ≤ len.toNat
  | [], offset, ns, h => by
    unfold takenLengths at h
    split at h
    · cases h
    · obtain rfl := Option.some.inj h
      simp
  | a :: answers, offset, ns, h => by
    unfold takenLengths at h
    split at h
    · split at h
      · split at h
        · cases h
        · exact takenLengths_mem h
      · next hr =>
        obtain ⟨ms, hms, rfl⟩ := Option.map_eq_some_iff.mp h
        have hle := a.le_len
        exact List.forall_mem_cons.mpr ⟨by omega, takenLengths_mem hms⟩
    · obtain rfl := Option.some.inj h
      simp

/-! ## 主結果 -/

/--
**`0` を返したときに `buf` をそのまま書いているための、ちょうどの条件。**

受け取られた長さの和がちょうど `len` で、どの一切れも `buf` の先頭と同じ byte であること。初めの一回ですべて
受け取られたときは、いつもそうなる。
-/
theorem os_write_b_exact_iff (b : SocketBuffer) (answers : List (SocketWrite b.len)) :
    OsWriteBExact b answers ↔ FitsWholly b answers := by
  have hspec := osWriteBLoop_spec answers 0
  have hbuf : (b.bytes.take b.len.toNat).length = b.len.toNat :=
    List.length_take_of_le (by have := b.le_length; omega)
  -- 切れ端は、`buf` の初めの `len` byte だけで決まる
  have hpieces : ∀ ns, takenLengths answers 0 = some ns →
      ((osWriteB b answers).written = b.bytes.take b.len.toNat ↔
        ns.sum = b.len.toNat ∧ PiecesAgree (b.bytes.take b.len.toNat) ns 0) := by
    intro ns hns
    rw [hns] at hspec
    have hle := fun n hn => (takenLengths_mem hns n hn).2
    have hsame : (ns.flatMap fun n => b.bytes.take n)
        = ns.flatMap fun n => (b.bytes.take b.len.toNat).take n := by
      refine List.flatMap_congr fun n hn => ?_
      rw [List.take_take, min_eq_left (hle n hn)]
    rw [osWriteB, hspec.2, hsame]
    have h := flatMap_take_eq_drop_iff (Nat.zero_le (b.bytes.take b.len.toNat).length)
      (fun n hn => (hle n hn).trans hbuf.ge)
    rwa [List.drop_zero, Nat.zero_add, hbuf] at h
  constructor
  · intro h ns hns
    refine (hpieces ns hns).mp (h.exact ?_)
    rw [hns] at hspec
    exact hspec.1
  · intro h
    refine ⟨fun hzero => ?_, fun c hc => ?_⟩
    · cases hns : takenLengths answers 0 with
      | none =>
        rw [hns] at hspec
        exact absurd hzero hspec
      | some ns => exact (hpieces ns hns).mpr (h ns hns)
    · obtain ⟨hstart, hcount⟩ := osWriteBLoop_calls answers 0 c hc
      have hpos : 0 < b.len := by
        by_contra hneg
        rw [osWriteB_calls_of_le (not_lt.mp hneg)] at hc
        cases hc
      have := b.le_length
      rw [hstart, hcount]
      omega

/-- 2 byte の `buf` が 1 byte ずつ受け取られると、初めの byte を二度書いて `0` を返す。 -/
theorem short_write_repeats_head :
    ¬OsWriteBExact { bytes := [97, 98], len := 2, le_length := by decide, int32 := by decide }
      [{ r := 1, errno := .other, le_len := by decide },
       { r := 1, errno := .other, le_len := by decide }] := by
  intro h
  have := h.exact (by decide)
  revert this
  decide

end Esq
