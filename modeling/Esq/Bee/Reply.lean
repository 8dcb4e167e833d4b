import Esq.Bee.Register
import Esq.Pony

/-!
# 返事の一致

要求を処理した結果の `r` が、socket に書かれる最初の返事と、`pony` の戻り値に一致する条件。

GET は `malloc` の前に抜けるときと成功したときだけ、書き込む側が読む所に結果を置く。`malloc` の後に
`__exx` へ抜けると、結果は `ctx->reply` に入るのに `reply_ptr` が NULL でないので、書き込む側は
`malloc` したままの領域を返事として送る。
-/

namespace Esq

open Infra

/-! ## 要求の処理 -/

inductive DbHandler where
  | get
  | set (io : WriteIo) (needSync : Bool)
  | del (io : WriteIo) (needSync : Bool)

/-- 要求を処理したときの `r` と、返事の入った `ctx`。 -/
def DbHandler.handle (h : DbHandler) (node : BeeNode) (buckets : Buckets)
    (malloc : Option ReplyFromBeeToPony2) (ctx : BeeServiceCtx) : Int × BeeServiceCtx :=
  match h with
  | .get => beeDbGet node buckets malloc ctx
  | .set io needSync =>
    let res := beeDbSet node io buckets ctx needSync
    (res.r, res.ctx)
  | .del io needSync =>
    let res := beeDbDel node io buckets ctx needSync
    (res.r, res.ctx)

/-- 書かれた byte の先頭の返事は `r` を運び、失敗なら長さは 0 である。 -/
def CarriesCode (written : List UInt8) (r : Int) : Prop :=
  replySize ≤ written.length ∧ (ReplyFromBeeToPony.ofBytes written).returnCode = r ∧
    (r ≠ esqOk → (ReplyFromBeeToPony.ofBytes written).resultLen = 0)

/-- 書かれた返事も、それを受け取った `pony` の戻り値も、`r` に一致する。 -/
structure ReplyAgrees (ctx : BeeServiceCtx) (heap : Nat → UInt8) (r : Int) : Prop where
  header : CarriesCode (beeWriteReply ctx heap) r
  pony : ∀ resultBufSize : Option Int, resultBufSize.getD 0 = ctx.header.resultBufSize →
    (ponyReceive resultBufSize (beeWriteReply ctx heap)).r = r

/-! ## 書かれる byte -/

section

variable {ctx : BeeServiceCtx} {heap : Nat → UInt8} {a b : Int} {rest bs : List UInt8} {n : Nat}

def IsCode (r : Int) : Prop := -16 ≤ r ∧ r ≤ 0

theorem isCode_esqOk : IsCode esqOk := ⟨by decide, by decide⟩

theorem isCode_esqErrorNotfound : IsCode esqErrorNotfound := ⟨by decide, by decide⟩

theorem isCode_esqErrorLibcall : IsCode esqErrorLibcall := ⟨by decide, by decide⟩

theorem IsCode.toInt32_eq {r : Int} (h : IsCode r) : toInt32 r = r :=
  toInt32_of_range (by have := h.1; omega) (by have := h.2; omega)

theorem ofBytes_structBytes (a b : Int) (rest : List UInt8) :
    ReplyFromBeeToPony.ofBytes (structBytes [a, b] ++ rest)
      = { returnCode := toInt32 a, resultLen := toInt32 b } := by
  unfold ReplyFromBeeToPony.ofBytes
  rw [intAt_structBytes [a, b] rest 0 Nat.zero_lt_two, intAt_structBytes [a, b] rest 1 Nat.one_lt_two]
  rfl

theorem esqMcoSocketRead_append (hn : 0 < n) (hbs : bs.length = n) :
    esqMcoSocketRead (bs ++ rest) n = (esqOk, bs, rest) := by
  have hlen : ¬ (bs ++ rest).length < n := by
    rw [List.length_append]
    omega
  have h0 : ¬ ((n : Int) = 0 ∨ (bs ++ rest).length < (n : Int).toNat) := by
    rw [Int.toNat_natCast]
    omega
  unfold esqMcoSocketRead
  rw [if_neg (by omega), if_neg h0, Int.toNat_natCast, List.take_left' hbs, List.drop_left' hbs]

theorem ponyReceive_append (size : Option Int) (hr : toInt32 a = a) (hl : toInt32 b = b) :
    ponyReceive size (structBytes [a, b] ++ rest)
      = ponyReceiveResult size { returnCode := a, resultLen := b } rest := by
  have hread : esqMcoSocketRead (structBytes [a, b] ++ rest) replySize
      = (esqOk, structBytes [a, b], rest) :=
    esqMcoSocketRead_append (by decide) (length_structBytes _)
  have hof := ofBytes_structBytes a b []
  rw [List.append_nil, hr, hl] at hof
  unfold ponyReceive
  simp only [hread, hof, esqOk, ne_eq, not_true_eq_false, if_false]

theorem writeBlock_structBytes (a b : Int) (result : List UInt8) (heap : Nat → UInt8) {n : Int}
    (hn : replySize ≤ n) :
    ∃ rest, writeBlock (structBytes [a, b] ++ result) heap n = structBytes [a, b] ++ rest ∧
      (rest.length : Int) = n - replySize := by
  have h8 : (structBytes [a, b]).length = replySize := length_structBytes _
  have hle : (structBytes [a, b]).length ≤ n.toNat := by omega
  refine ⟨result.take (n.toNat - replySize)
    ++ (List.range (n.toNat - (structBytes [a, b] ++ result).length)).map heap, ?_, ?_⟩
  · unfold writeBlock
    rw [List.take_append, List.take_of_length_le hle, h8, List.append_assoc]
  · simp only [List.length_append, List.length_take, List.length_map, List.length_range, h8]
    omega

theorem replyAgrees_of_none {r : Int} (hp : ctx.replyPtr = none)
    (hreply : ctx.reply = { returnCode := r, resultLen := 0 }) (hr : IsCode r) :
    ReplyAgrees ctx heap r := by
  have hw : beeWriteReply ctx heap = structBytes [r, 0] ++ [] := by
    unfold beeWriteReply
    rw [hp, List.append_nil, hreply]
    rfl
  have h0 : toInt32 0 = 0 := rfl
  refine ⟨?_, fun size _ => ?_⟩
  · rw [hw]
    refine ⟨(length_structBytes [r, 0]).ge, ?_, fun _ => ?_⟩
    · rw [ofBytes_structBytes, hr.toInt32_eq]
    · rw [ofBytes_structBytes, h0]
  · rw [hw, ponyReceive_append size hr.toInt32_eq h0]
    simp [ponyReceiveResult]

theorem beeWriteReply_of_some (heap : Nat → UInt8) {rp : ReplyFromBeeToPony2}
    (hp : ctx.replyPtr = some rp)
    (hlen : 0 ≤ rp.resultLen) :
    ∃ rest, beeWriteReply ctx heap = structBytes [rp.returnCode, rp.resultLen] ++ rest ∧
      rp.resultLen + timevalSize ≤ rest.length := by
  obtain ⟨rest, hrest, hl⟩ := writeBlock_structBytes rp.returnCode rp.resultLen rp.result heap
    (show (replySize : Int) ≤ rp.resultLen + timevalSize + replySize by omega)
  refine ⟨rest ++ ctx.reply.bytes, ?_, ?_⟩
  · unfold beeWriteReply
    rw [hp, ← List.append_assoc, ← hrest]
    rfl
  · rw [List.length_append]
    omega

theorem ponyReceiveResult_value {rest : List UInt8} {size len : Int} (hlen : 0 < len)
    (hrest : len + timevalSize ≤ rest.length) :
    (ponyReceiveResult (some size) { returnCode := esqOk, resultLen := len } rest).r
      = if len ≤ size then esqOk else esqErrorSize := by
  have hsplit : rest = rest.take timevalSize ++ rest.drop timevalSize :=
    (List.take_append_drop ..).symm
  have htake : (rest.take timevalSize).length = timevalSize := by
    rw [List.length_take]
    omega
  have htv : esqMcoSocketRead rest timevalSize
      = (esqOk, rest.take timevalSize, rest.drop timevalSize) := by
    conv_lhs => rw [hsplit]
    exact esqMcoSocketRead_append (by decide) htake
  have hval : (esqMcoSocketRead (rest.drop timevalSize) len).1 = 0 := by
    unfold esqMcoSocketRead
    rw [if_neg (by omega), if_neg (by rw [List.length_drop]; omega)]
    rfl
  unfold ponyReceiveResult
  simp only [hlen.ne', if_false, htv, ne_eq, not_true_eq_false, show esqOk = 0 from rfl]
  by_cases hsize : len ≤ size
  · simp only [not_lt.mpr hsize, if_false, hsize, if_true]
    rw [if_neg (not_not.mpr hval)]
  · simp only [not_le.mp hsize, if_true, hsize, if_false]

end

/-! ## 書き込みの返事 -/

section

variable {node : BeeNode} {io : WriteIo} {buckets : Buckets} {ctx : BeeServiceCtx} {needSync : Bool}
  {maps : RangeMaps} {write : BeeBucket → Bool → Int × BeeBucket} {ok : Nat → Bool}

theorem isCode_kcdbReturn (r : Bool) : IsCode (kcdbReturn r) := by
  cases r
  · exact isCode_esqErrorLibcall
  · exact isCode_esqOk

theorem isCode_beeBucketWrite (write1 write0 : Kcdb → Bool → Bool × Kcdb) (b : BeeBucket)
    (ok : Bool) : IsCode (beeBucketWrite write1 write0 b ok).1 := by
  unfold beeBucketWrite
  split
  · exact isCode_kcdbReturn _
  · exact isCode_kcdbReturn _
  · exact isCode_esqErrorNotfound

theorem isCode_beeDbWriteLocal (maps : RangeMaps) (ok : Nat → Bool) (hw : ∀ b ok, IsCode (write b ok).1) :
    ∀ (ps : List Nat) (r : Int) (buckets : Buckets), IsCode r →
      IsCode (beeDbWriteLocal maps write ok r ps buckets).1
  | [], r, buckets, hr => hr
  | p :: ps, r, buckets, hr => by
    unfold beeDbWriteLocal
    split
    · exact isCode_beeDbWriteLocal maps ok hw ps r buckets hr
    · simp only
      split
      · exact hw _ _
      · exact isCode_beeDbWriteLocal maps ok hw ps _ _ (hw _ _)

theorem isCode_beeDbSyncToRemote (forward : Nat → Forward) :
    ∀ ps : List Nat, IsCode (beeDbSyncToRemote maps forward ps).1
  | [] => isCode_esqOk
  | p :: ps => by
    have ih := isCode_beeDbSyncToRemote forward ps
    have hf : IsCode (beeDbForwardToNode (forward p)) := by
      cases forward p
      · exact isCode_esqErrorLibcall
      · exact isCode_esqErrorLibcall
      · exact isCode_esqOk
    unfold beeDbSyncToRemote
    split
    · exact ih
    · split
      · exact ih
      · simp only
        split
        · exact hf
        · exact ih

theorem replyAgrees_beeDbWrite {r0 op : Int} {heap : Nat → UInt8} (hp : ctx.replyPtr = none)
    (hw : ∀ b ok, IsCode (write b ok).1) (h0 : IsCode r0) :
    ReplyAgrees
      (beeDbWrite node io (fun ok => beeDbWriteLocal node.maps write ok r0) op buckets ctx needSync).ctx
      heap
      (beeDbWrite node io (fun ok => beeDbWriteLocal node.maps write ok r0) op buckets ctx
        needSync).r := by
  have hlocal := fun ps => isCode_beeDbWriteLocal node.maps io.kcdbOk hw ps r0 buckets h0
  unfold beeDbWrite
  split
  · exact replyAgrees_of_none hp rfl isCode_esqErrorNotfound
  · next p _ =>
    simp only
    split
    · exact replyAgrees_of_none hp rfl (hlocal _)
    · next hz =>
      split
      · refine replyAgrees_of_none ?_ rfl (isCode_beeDbSyncToRemote _ _)
        show (ctx.forwardAs op _).replyPtr = none
        unfold BeeServiceCtx.forwardAs
        split <;> exact hp
      · rw [not_not.mp hz]
        exact replyAgrees_of_none hp rfl isCode_esqOk

end

/-! ## GET の返事 -/

/-- record の長さは `kcdbgetbuf` が返す `int` に収まる。 -/
def RecordsFit (buckets : Buckets) : Prop :=
  ∀ b key v, (buckets b).record key = some v → v.length < 2 ^ 31

/--
返事が一致する条件。GET は、`malloc` の前に抜けるか、`timeval` より長く、値が `result_buf_size` に
収まる record を見つけなければならない。
-/
def ReplyCond (node : BeeNode) (buckets : Buckets) (mallocOk : Bool) (ctx : BeeServiceCtx) :
    DbHandler → Prop
  | .get => ctx.header.resultBufSize ≤ 0 ∨ mallocOk = false ∨
    ∃ v, node.answer buckets ctx.mapName ctx.key = some v ∧ timevalSize < v.length ∧
      v.length ≤ timevalSize + ctx.header.resultBufSize
  | .set _ _ => True
  | .del _ _ => True

section

variable {node : BeeNode} {buckets : Buckets} {ctx : BeeServiceCtx} {heap : Nat → UInt8}
  {v result : List UInt8} {r : Int}

theorem answer_length (hfit : RecordsFit buckets) {name : CStr} {key : List UInt8}
    (hv : node.answer buckets name key = some v) : v.length < 2 ^ 31 := by
  obtain ⟨_, -, b, -, hb⟩ := exists_of_localRecord hv
  exact hfit b key v hb

theorem replyAgrees_exx (hr : IsCode r) :
    ReplyAgrees ((ctx.setReplyPtr none).exx r) heap r := replyAgrees_of_none rfl rfl hr

theorem replyAgrees_found (hlen : timevalSize < v.length) (hint : v.length < 2 ^ 31)
    (hsize : 0 < ctx.header.resultBufSize) :
    ReplyAgrees (ctx.setReplyPtr (some
        { returnCode := esqOk, resultLen := v.length - timevalSize, result })) heap esqOk ↔
      v.length ≤ timevalSize + ctx.header.resultBufSize := by
  have hpos : 0 < (v.length : Int) - timevalSize := by omega
  have hl : toInt32 ((v.length : Int) - timevalSize) = v.length - timevalSize :=
    toInt32_of_range (by omega) (by omega)
  have hr := isCode_esqOk.toInt32_eq
  have hptr : (ctx.setReplyPtr (some
      { returnCode := esqOk, resultLen := v.length - timevalSize, result })).replyPtr
      = some { returnCode := esqOk, resultLen := v.length - timevalSize, result } := rfl
  obtain ⟨rest, hw, hrest⟩ := beeWriteReply_of_some heap hptr hpos.le
  have hpony : (ponyReceive (some ctx.header.resultBufSize) (beeWriteReply (ctx.setReplyPtr (some
      { returnCode := esqOk, resultLen := v.length - timevalSize, result })) heap)).r
      = if (v.length : Int) - timevalSize ≤ ctx.header.resultBufSize then esqOk
        else esqErrorSize := by
    rw [hw, ponyReceive_append _ hr hl]
    exact ponyReceiveResult_value hpos hrest
  constructor
  · intro h
    have hp := h.pony (some ctx.header.resultBufSize) rfl
    rw [hpony] at hp
    split at hp
    · next hle => omega
    · exact absurd hp (by decide)
  · intro hle
    refine ⟨?_, fun size hs => ?_⟩
    · rw [hw]
      refine ⟨?_, ?_, fun hne => absurd rfl hne⟩
      · rw [List.length_append, length_structBytes]
        exact Nat.le_add_right _ _
      · rw [ofBytes_structBytes, hr]
    · -- 正の `result_buf_size` を送ったのは buffer のある `pony` である
      cases size with
      | none =>
        have hs : (0 : Int) = ctx.header.resultBufSize := hs
        omega
      | some n =>
        have hs : n = ctx.header.resultBufSize := hs
        subst hs
        rw [hpony, if_pos (by omega)]

theorem not_replyAgrees_notfound :
    ¬ ReplyAgrees ((ctx.setReplyPtr (some { returnCode := 0, resultLen := 0, result })).exx
      esqErrorNotfound) heap esqErrorNotfound := by
  intro h
  have hptr : ((ctx.setReplyPtr (some { returnCode := 0, resultLen := 0, result })).exx
      esqErrorNotfound).replyPtr = some { returnCode := 0, resultLen := 0, result } := rfl
  obtain ⟨rest, hw, -⟩ := beeWriteReply_of_some heap hptr le_rfl
  have hcode := h.header.2.1
  rw [hw, ofBytes_structBytes] at hcode
  have hzero : toInt32 0 = esqErrorNotfound := hcode
  exact absurd hzero (by decide)

end

theorem sampleKcdb_fit : RecordsFit (sampleBuckets sampleKcdb) := by
  intro b key v hv
  have hv : (if key = [107] then some (List.replicate 17 (1 : UInt8)) else none) = some v := hv
  split at hv
  · cases hv
    decide
  · cases hv

end Esq
