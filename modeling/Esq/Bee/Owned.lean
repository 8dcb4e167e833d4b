import Esq.Bee.MonkeyReply
import Esq.Bee.Sync
import Esq.Infra.Ownership
import Esq.Session.Client

/-!
# 接続の資源

`bee_session_receive_request` とそれが呼ぶ関数を、client の descriptor と三つの heap の領域に触れる所を入れて
書き直したもの。

`close` と `free` は `__exx` と `__read_again` の二か所にあり、`reply_ptr` だけは返事を書いた後で解放される。
同期の要求では、`bee_db_start_merge_sprint0` も descriptor を閉じる。

同じ資源に続けて触れる所は、一つにまとめてある。
-/

namespace Esq

open Infra Infra.Owning

/-! ## 資源 -/

inductive BeeRes where
  /-- 開いた descriptor -/
  | fd (n : Int)
  /-- `bee_service_ctx_t` -/
  | ctx
  | recvBuf
  | replyPtr
deriving DecidableEq, Repr

abbrev BeeOwning := Owning BeeRes

/-- 受信の途中の接続。`BeeServiceCtx` の `recvBuf` は領域の中身なので、pointer を別に持つ。 -/
structure OwnedConn extends BeeConn where
  /-- `ctx->recv_buf` が `NULL` でない -/
  hasRecvBuf : Bool := false
deriving DecidableEq, Repr

/-- 同期の loop の一周の間に OS と bucket が返すもの。 -/
structure SprintTurn where
  malloc : Bool
  /-- `read(fd, buffer, malloc_size)` が `malloc_size` を返す -/
  frame : Bool
  /-- `esq_bucket_merge_item` が 0 を返す -/
  merged : Bool
  /-- 次の header。`read` が `sizeof(header)` を返さなければ `none` -/
  next : Option HeaderFromPonyToBee
deriving DecidableEq, Repr

structure BeeCallEnv where
  sock : Sock
  /-- `recv_buf` の `malloc` -/
  malloc : Option (Nat → UInt8)
  /-- `__read_again` の `esq_session_set_socket_fd` が 0 を返す -/
  rearm : Bool
  node : BeeNode
  buckets : Buckets
  write : WriteIo
  /-- `reply_ptr` の `malloc` -/
  replyMalloc : Option ReplyFromBeeToPony2
  /-- `bee_monkey` の `reply` の `malloc` -/
  monkeyMalloc : Bool
  /-- `os_socket_set_timeout` が成功する -/
  sockTimeout : Bool
  turns : List SprintTurn

def BeeCallEnv.wake (env : BeeCallEnv) (eventBits : Nat) : Wake :=
  { eventBits, malloc := env.malloc, rearm := env.rearm }

inductive BeeCallEnd where
  /-- 次の event を待つ -/
  | waiting (s : Session) (c : OwnedConn)
  /-- 接続を閉じた -/
  | closed

def OwnedConn.fillHeader (c : OwnedConn) (bytes : List UInt8) : OwnedConn :=
  { c with headerBuf := splice c.headerBuf c.ctx.offset bytes }

/-- header を受けて、payload を読む所へ進む。 -/
def BeeServiceCtx.takeHeader (ctx : BeeServiceCtx) (header : HeaderFromPonyToBee)
    (recvBuf : List UInt8) : BeeServiceCtx :=
  { ctx with
    header, recvBuf
    opcode := beeOpTypeMask header.opcode
    payloadSize := header.payloadSize
    offset := 0
    lc := .payload }

namespace Owned

/-! ## 要求の処理 -/

def beeDbGet (env : BeeCallEnv) (ctx : BeeServiceCtx) : BeeOwning BeeServiceCtx := do
  touch .ctx
  if ctx.header.resultBufSize ≤ 0 then
    pure (Esq.beeDbGet env.node env.buckets env.replyMalloc ctx).2
  else
    match env.replyMalloc with
    | none => pure (Esq.beeDbGet env.node env.buckets none ctx).2
    | some mem => do
      acquire .replyPtr
      touch .recvBuf
      match env.node.findNodes ctx.mapName ctx.key with
      | none => do
        touch .ctx
        pure (Esq.beeDbGet env.node env.buckets (some mem) ctx).2
      | some _ => do
        touch .replyPtr
        touch .ctx
        pure (Esq.beeDbGet env.node env.buckets (some mem) ctx).2

def beeDbSet (env : BeeCallEnv) (ctx : BeeServiceCtx) (needSync : Bool) :
    BeeOwning BeeServiceCtx := do
  touch .ctx
  touch .recvBuf
  touch .ctx
  pure (Esq.beeDbSet env.node env.write env.buckets ctx needSync).ctx

def beeDbDel (env : BeeCallEnv) (ctx : BeeServiceCtx) (needSync : Bool) :
    BeeOwning BeeServiceCtx := do
  touch .ctx
  touch .recvBuf
  touch .ctx
  pure (Esq.beeDbDel env.node env.write env.buckets ctx needSync).ctx

def beeMonkey (env : BeeCallEnv) (fd : Int) (header : HeaderFromPonyToBee) :
    BeeOwning Unit := do
  touch .ctx
  if header.keyLen ≤ 0 || header.dataLen < 0 then touch (.fd fd)
  else
    match mallocMonkeyReply env.monkeyMalloc header.resultBufSize with
    | .error _ => touch (.fd fd)
    | .ok _ => do
      touch .recvBuf
      touch (.fd fd)

def beeHandle (env : BeeCallEnv) (fd : Int) (ctx : BeeServiceCtx) : BeeOwning BeeServiceCtx :=
  if ctx.opcode = beeOpDbSet then beeDbSet env ctx true
  else if ctx.opcode = beeOpDbGet then beeDbGet env ctx
  else if ctx.opcode = beeOpDbDel then beeDbDel env ctx true
  else if ctx.opcode = beeOpFileWrite then pure ctx
  else if ctx.opcode = beeOpFileRead then pure ctx
  else if ctx.opcode = beeOpFileDel then pure ctx
  else if ctx.opcode = beeOpScript then pure ctx
  else if ctx.opcode = beeOpInternalSet then beeDbSet env ctx false
  else if ctx.opcode = beeOpInternalDel then beeDbDel env ctx false
  else if ctx.opcode = beeOpMonkey then do
    beeMonkey env fd ctx.header
    pure ctx
  else do
    touch .ctx
    pure (ctx.exx esqErrorParam)

def beeReply (fd : Int) (ctx : BeeServiceCtx) : BeeOwning Unit := do
  touch .ctx
  if ctx.opcode = beeOpMonkey then pure ()
  else if ctx.replyPtr.isSome then do
    touch .replyPtr
    touch (.fd fd)
    release .replyPtr
    touch .ctx
    touch (.fd fd)
  else touch (.fd fd)

/-! ## 接続を閉じる -/

def beeClose (fd : Int) (c : OwnedConn) : BeeOwning (Except Fault BeeCallEnd) := do
  release (.fd fd)
  touch .ctx
  releaseIf c.hasRecvBuf .recvBuf
  release .ctx
  pure (.ok .closed)

def beeReadAgain (env : BeeCallEnv) (s : Session) (c : OwnedConn) :
    BeeOwning (Except Fault BeeCallEnd) := do
  touch (.fd s.fd)
  if !env.rearm then beeClose s.fd c
  else
    match s.rearm .beeSessionReceiveRequest esqEventBitRead 2 s.fd with
    | .error fault => pure (.error fault)
    | .ok (.rearmed, s') => pure (.ok (.waiting s' c))
    | .ok _ => beeClose s.fd c

/-! ## 同期 -/

/-- `bee_db_start_merge_sprint0` の loop が descriptor から読む所。`turns` が尽きた後の `malloc` は失敗する。 -/
def mergeSprintTurns (fd : Int) : HeaderFromPonyToBee → List SprintTurn → BeeOwning Unit
  | _, [] => pure ()
  | header, turn :: turns =>
    if !header.mergeable || toInt32 header.frameSize < 0 || !turn.malloc then pure ()
    else do
      touch (.fd fd)
      if !turn.frame || !turn.merged then pure ()
      else do
        touch (.fd fd)
        match turn.next with
        | none => pure ()
        | some header => mergeSprintTurns fd header turns

def beeDbStartMergeSprint (env : BeeCallEnv) (fd : Int) (header0 : HeaderFromPonyToBee) :
    BeeOwning Unit := do
  touch (.fd fd)
  if !env.sockTimeout then release (.fd fd)
  else do
    touch .ctx
    mergeSprintTurns fd header0 env.turns
    release (.fd fd)

/-! ## 受信 -/

def beeDispatch (env : BeeCallEnv) (fd : Int) (c : OwnedConn) :
    BeeOwning (Except Fault BeeCallEnd) := do
  let ctx ← beeHandle env fd c.ctx
  beeReply fd ctx
  beeClose fd { c with ctx }

def beeCheckPayload (env : BeeCallEnv) (fd : Int) (c : OwnedConn) :
    BeeOwning (Except Fault BeeCallEnd) := do
  touch .recvBuf
  if c.ctx.recvBuf.getD c.ctx.header.rangeMapNameLen.toNat 1 ≠ 0 then beeClose fd c
  else beeDispatch env fd c

def beeReceivePayload (env : BeeCallEnv) (s : Session) (c : OwnedConn) (sock : Sock) :
    BeeOwning (Except Fault BeeCallEnd) := do
  touch .ctx
  if hasBit s.eventBits esqEventBitRead then do
    touch .recvBuf
    touch (.fd s.fd)
    match (sock.read (c.ctx.payloadSize.toNat - c.ctx.offset)).1 with
    | .wouldBlock => beeReadAgain env s c
    | .error => beeClose s.fd c
    | .closed => beeClose s.fd c
    | .data bytes =>
      if bytes.length = c.ctx.payloadSize.toNat - c.ctx.offset then
        beeCheckPayload env s.fd { c with ctx := c.ctx.fill bytes }
      else beeReadAgain env s { c with ctx := (c.ctx.fill bytes).advance bytes.length }
  else beeCheckPayload env s.fd c

/-- header の検査から二つ目の `PT_SET` まで。 -/
def beeTakeHeader (env : BeeCallEnv) (s : Session) (c : OwnedConn) (sock : Sock)
    (header : HeaderFromPonyToBee) : BeeOwning (Except Fault BeeCallEnd) := do
  touch .ctx
  if !header.accepted then beeClose s.fd c
  else if beeOpTypeMask header.opcode = beeOpSync then do
    beeDbStartMergeSprint env s.fd header
    beeClose s.fd c
  else
    match (env.wake s.eventBits).mallocRecvBuf header.payloadSize with
    | none => beeClose s.fd c
    | some recvBuf => do
      acquire .recvBuf
      beeReceivePayload env s
        { c with ctx := c.ctx.takeHeader header recvBuf, hasRecvBuf := true } sock

def beeCheckHeader (env : BeeCallEnv) (s : Session) (c : OwnedConn) (sock : Sock) :
    BeeOwning (Except Fault BeeCallEnd) :=
  beeTakeHeader env s c sock (.ofBytes c.headerBuf)

def beeHeaderRead (env : BeeCallEnv) (s : Session) (c : OwnedConn) (r : Int)
    (bytes : List UInt8) (sock : Sock) : BeeOwning (Except Fault BeeCallEnd) :=
  if r ≤ 0 then beeClose s.fd c
  else if bytes.length = headerSize - c.ctx.offset then
    beeCheckHeader env s (c.fillHeader bytes) sock
  else beeReadAgain env s { c.fillHeader bytes with ctx := c.ctx.advance bytes.length }

def beeReceiveHeader (env : BeeCallEnv) (s : Session) (c : OwnedConn) :
    BeeOwning (Except Fault BeeCallEnd) := do
  touch .ctx
  touch (.fd s.fd)
  match osReadNb env.sock (headerSize - c.ctx.offset) with
  | (r, bytes, sock) => beeHeaderRead env s c r bytes sock

def beeResume (env : BeeCallEnv) (s : Session) (c : OwnedConn) :
    BeeOwning (Except Fault BeeCallEnd) :=
  match c.ctx.lc with
  | .start => beeReceiveHeader env s { c with ctx := { c.ctx with offset := 0, lc := .header } }
  | .header => beeReceiveHeader env s c
  | .payload => beeReceivePayload env s c env.sock

def beeSessionReceiveRequest (env : BeeCallEnv) (s : Session) (c : OwnedConn) :
    BeeOwning (Except Fault BeeCallEnd) :=
  if s.fd ≤ 0 then pure (.error .designError)
  else if s.closing then beeClose s.fd c
  else beeResume env s c

end Owned

/-! ## 資源の無い定義との一致 -/

def BeeCallEnd.conn? : BeeCallEnd → Option BeeConn
  | .waiting _ c => some c.toBeeConn
  | .closed => none

def BeeOutcome.conn? : BeeOutcome → Option BeeConn
  | .again conn => some conn
  | _ => none

def Owned.Agrees (x : BeeOwning (Except Fault BeeCallEnd)) (outcome : BeeOutcome) : Prop :=
  ∃ e, x.result = .ok e ∧ e.conn? = outcome.conn?

section

variable {env : BeeCallEnv} {s t : Session} {c : OwnedConn} {sock sock' : Sock} {fd : Int}
  {outcome : BeeOutcome}

open Owned

theorem beeReceiveHeader_eq {r : Int} {bytes : List UInt8}
    (h : osReadNb env.sock (headerSize - c.ctx.offset) = (r, bytes, sock)) :
    Owned.beeReceiveHeader env s c = (do
      touch .ctx
      touch (.fd s.fd)
      beeHeaderRead env s c r bytes sock) := by
  unfold Owned.beeReceiveHeader
  rw [h]

theorem agrees_bind {α : Type} {x : BeeOwning α} {f : α → BeeOwning (Except Fault BeeCallEnd)} :
    Agrees (x >>= f) outcome ↔ Agrees (f x.result) outcome := Iff.rfl

theorem agrees_beeClose (h : outcome.conn? = none) : Agrees (beeClose fd c) outcome :=
  ⟨.closed, rfl, h.symm⟩

theorem agrees_beeCheckPayload :
    Agrees (Owned.beeCheckPayload env fd c) (Esq.beeCheckPayload c.toBeeConn) := by
  unfold Owned.beeCheckPayload Esq.beeCheckPayload
  rw [agrees_bind]
  split
  · exact agrees_beeClose rfl
  · exact ⟨.closed, rfl, rfl⟩

variable (hre : s.rearm .beeSessionReceiveRequest esqEventBitRead 2 s.fd = .ok (.rearmed, t))
include hre

theorem agrees_beeReadAgain :
    Agrees (beeReadAgain env s c) (c.toBeeConn.readAgain (env.wake s.eventBits)) := by
  unfold beeReadAgain BeeConn.readAgain BeeCallEnv.wake
  rw [agrees_bind, hre]
  by_cases hr : env.rearm = true
  · simp only [hr, Bool.not_true, Bool.false_eq_true, if_false, if_true]
    exact ⟨.waiting t c, rfl, rfl⟩
  · simp only [hr, Bool.not_false, if_true, Bool.false_eq_true, if_false]
    exact agrees_beeClose rfl

theorem agrees_beeReceivePayload
    (h : Esq.beeReceivePayload (env.wake s.eventBits) c.toBeeConn sock = (outcome, sock')) :
    Agrees (Owned.beeReceivePayload env s c sock) outcome := by
  unfold Owned.beeReceivePayload
  unfold Esq.beeReceivePayload BeeCallEnv.wake at h
  rw [agrees_bind]
  by_cases hread : hasBit s.eventBits esqEventBitRead = true
  · simp only [hread, if_true] at h ⊢
    rw [agrees_bind, agrees_bind]
    generalize sock.read (c.ctx.payloadSize.toNat - c.ctx.offset) = q at h ⊢
    obtain ⟨r, sock1⟩ := q
    cases r with
    | wouldBlock =>
      cases h
      exact agrees_beeReadAgain hre
    | error =>
      cases h
      exact agrees_beeClose rfl
    | closed =>
      cases h
      exact agrees_beeClose rfl
    | data bytes =>
      dsimp only at h ⊢
      split at h
      next hlen =>
        cases h
        rw [if_pos hlen]
        exact agrees_beeCheckPayload
      next hlen =>
        cases h
        rw [if_neg hlen]
        exact agrees_beeReadAgain hre
  · simp only [hread] at h ⊢
    cases h
    exact agrees_beeCheckPayload

theorem agrees_beeCheckHeader
    (h : Esq.beeCheckHeader (env.wake s.eventBits) c.toBeeConn sock = (outcome, sock')) :
    Agrees (Owned.beeCheckHeader env s c sock) outcome := by
  unfold Owned.beeCheckHeader beeTakeHeader
  unfold Esq.beeCheckHeader at h
  rw [agrees_bind]
  by_cases hacc : (!(HeaderFromPonyToBee.ofBytes c.headerBuf).accepted) = true
  · rw [if_pos hacc] at h ⊢
    cases h
    exact agrees_beeClose rfl
  rw [if_neg hacc] at h ⊢
  by_cases hsync : beeOpTypeMask (HeaderFromPonyToBee.ofBytes c.headerBuf).opcode = beeOpSync
  · rw [if_pos hsync] at h ⊢
    cases h
    rw [agrees_bind]
    exact agrees_beeClose rfl
  rw [if_neg hsync] at h ⊢
  cases hm : (env.wake s.eventBits).mallocRecvBuf
      (HeaderFromPonyToBee.ofBytes c.headerBuf).payloadSize with
  | none =>
    rw [hm] at h
    cases h
    exact agrees_beeClose rfl
  | some recvBuf =>
    rw [hm] at h
    rw [agrees_bind]
    exact agrees_beeReceivePayload hre h

theorem agrees_beeReceiveHeader
    (h : Esq.beeReceiveHeader (env.wake s.eventBits) c.toBeeConn env.sock = (outcome, sock')) :
    Agrees (Owned.beeReceiveHeader env s c) outcome := by
  unfold Esq.beeReceiveHeader at h
  dsimp only at h
  cases hread : osReadNb env.sock (headerSize - c.ctx.offset) with
  | mk r q =>
    obtain ⟨bytes, sock1⟩ := q
    rw [hread] at h
    rw [beeReceiveHeader_eq hread, agrees_bind, agrees_bind]
    unfold beeHeaderRead
    by_cases hr : r ≤ 0
    · rw [if_pos hr] at h ⊢
      cases h
      exact agrees_beeClose rfl
    · rw [if_neg hr] at h ⊢
      by_cases hlen : bytes.length = headerSize - c.ctx.offset
      · rw [if_pos hlen] at h ⊢
        exact agrees_beeCheckHeader hre h
      · rw [if_neg hlen] at h ⊢
        cases h
        exact agrees_beeReadAgain hre

/-- **資源に触れる所を入れても、callback の待つ所と閉じる所は変わらない。** -/
theorem agrees_beeSessionReceiveRequest (hfd : 0 < s.fd)
    (h : Esq.beeSessionReceiveRequest (env.wake s.eventBits) c.toBeeConn env.sock
      = (outcome, sock')) :
    Agrees (Owned.beeSessionReceiveRequest env s c) outcome := by
  unfold Owned.beeSessionReceiveRequest
  unfold Esq.beeSessionReceiveRequest at h
  rw [if_neg (by omega)]
  by_cases hc : s.closing = true
  · rw [if_pos hc]
    unfold Session.closing at hc
    rw [if_pos (by simp only [Bool.or_eq_true, BeeCallEnv.wake] at hc ⊢; tauto)] at h
    cases h
    exact agrees_beeClose rfl
  · rw [if_neg hc]
    unfold Session.closing at hc
    rw [if_neg (by simp only [Bool.or_eq_true, BeeCallEnv.wake] at hc ⊢; tauto)] at h
    unfold Owned.beeResume
    unfold Esq.beeResume at h
    cases hlc : c.ctx.lc with
    | start =>
      rw [hlc] at h
      exact agrees_beeReceiveHeader hre h
    | header =>
      rw [hlc] at h
      exact agrees_beeReceiveHeader hre h
    | payload =>
      rw [hlc] at h
      exact agrees_beeReceivePayload hre h

end

end Esq
