import Esq.Bee.Db
import Esq.Infra.LittleEndian
import Esq.Libs.Memory
import Esq.Session.Basic

/-!
# bee の接続

`bee/session.c` の `bee_session_receive_request` と、それが使う `os_read_nb`。

`bee_session_receive_request` は protothread で、起こされるたびに `ctx->lc` の位置から続ける。
header と payload を少しずつ読み、揃ったら要求を処理して返事を書き、接続を閉じる。

socket から読めるのは、相手から届いてまだ読んでいない byte である。届いた分が無いとき、`read` は
相手が閉じていれば 0 を、そうでなければ `EAGAIN` で -1 を返す。
-/

namespace Esq

open Infra

/-! ## 通信の形式 -/

def headerSize : Nat := 20

def replySize : Nat := 8

namespace HeaderFromPonyToBee

def bytes (h : HeaderFromPonyToBee) : List UInt8 :=
  structBytes [h.opcode, h.rangeMapNameLen, h.keyLen, h.dataLen, h.resultBufSize]

def ofBytes (buf : List UInt8) : HeaderFromPonyToBee where
  opcode := intAt buf 0
  rangeMapNameLen := intAt buf 1
  keyLen := intAt buf 2
  dataLen := intAt buf 3
  resultBufSize := intAt buf 4

end HeaderFromPonyToBee

theorem length_headerBytes (h : HeaderFromPonyToBee) : h.bytes.length = headerSize :=
  length_structBytes _

namespace ReplyFromBeeToPony

def bytes (r : ReplyFromBeeToPony) : List UInt8 := structBytes [r.returnCode, r.resultLen]

def ofBytes (buf : List UInt8) : ReplyFromBeeToPony where
  returnCode := intAt buf 0
  resultLen := intAt buf 1

end ReplyFromBeeToPony

def ReplyFromBeeToPony2.bytes (r : ReplyFromBeeToPony2) : List UInt8 :=
  structBytes [r.returnCode, r.resultLen] ++ r.result

def beeOpTypeMask (opcode : Int) : Int := opcode % 16

def beeOpDbSet : Int := 1
def beeOpDbGet : Int := 2
def beeOpDbDel : Int := 3
def beeOpFileWrite : Int := 4
def beeOpFileRead : Int := 5
def beeOpFileDel : Int := 6
def beeOpScript : Int := 7
def beeOpSync : Int := 10
def beeOpMonkey : Int := 11

/-! ## socket -/

structure Sock where
  /-- 届いていて、まだ読んでいない byte -/
  arrived : List UInt8 := []
  peerClosed : Bool := false
  broken : Bool := false
deriving DecidableEq, Repr

inductive ReadResult where
  | data (bytes : List UInt8)
  | closed
  /-- `EAGAIN` か `EWOULDBLOCK` -/
  | wouldBlock
  /-- 他の errno -/
  | error
deriving DecidableEq, Repr

/-- `read(fd, buf, len)`。`len` が 0 なら、届いた byte があっても 0 を返す。 -/
def Sock.read (sock : Sock) (len : Nat) : ReadResult × Sock :=
  if len = 0 then (.closed, sock)
  else if sock.arrived ≠ [] then
    (.data (sock.arrived.take len), { sock with arrived := sock.arrived.drop len })
  else if sock.broken then (.error, sock)
  else if sock.peerClosed then (.closed, sock)
  else (.wouldBlock, sock)

/-- `os_read_nb`。戻り値と、写した byte。届いていないときも 0 を返す。 -/
def osReadNb (sock : Sock) (len : Nat) : Int × List UInt8 × Sock :=
  match sock.read len with
  | (.data bytes, sock) => (bytes.length, bytes, sock)
  | (.closed, sock) => (0, [], sock)
  | (.wouldBlock, sock) => (0, [], sock)
  | (.error, sock) => (-1, [], sock)

/-! ## event -/

/-- 起こされたときの event と、その間に呼ばれる OS の結果。 -/
structure Wake where
  eventBits : Nat
  /-- `recv_buf` の `malloc` が返す領域の中身。`NULL` は `none` で表す -/
  malloc : Option (Nat → UInt8)
  /-- `__read_again` の `esq_session_set_socket_fd` が成功する -/
  rearm : Bool

/-! ## 受信 -/

/-- 受信の途中の接続。`headerBuf` は `ctx->header` の領域で、揃うまで `ctx.header` は読まれない。 -/
structure BeeConn where
  ctx : BeeServiceCtx := {}
  headerBuf : List UInt8 := List.replicate headerSize 0
deriving DecidableEq, Repr

def BeeConn.setCtx (conn : BeeConn) (ctx : BeeServiceCtx) : BeeConn := { conn with ctx }

def BeeServiceCtx.advance (ctx : BeeServiceCtx) (n : Nat) : BeeServiceCtx :=
  { ctx with offset := ctx.offset + n }

def BeeServiceCtx.fill (ctx : BeeServiceCtx) (bytes : List UInt8) : BeeServiceCtx :=
  { ctx with recvBuf := splice ctx.recvBuf ctx.offset bytes }

inductive BeeOutcome where
  /-- `__read_again` に着いて、次の event を待つ -/
  | again (conn : BeeConn)
  /-- `__exx`：処理せずに閉じる -/
  | exx
  /-- `bee_db_start_merge_sprint` に渡して閉じる -/
  | merge (header : HeaderFromPonyToBee)
  /-- 要求が揃った -/
  | dispatch (ctx : BeeServiceCtx)
deriving DecidableEq, Repr

def BeeConn.readAgain (conn : BeeConn) (wake : Wake) : BeeOutcome :=
  if wake.rearm then .again conn else .exx

def HeaderFromPonyToBee.payloadSize (h : HeaderFromPonyToBee) : Int :=
  toInt32 (h.rangeMapNameLen + 1 + h.keyLen + timevalSize + h.dataLen)

def HeaderFromPonyToBee.accepted (h : HeaderFromPonyToBee) : Bool :=
  0 < h.rangeMapNameLen && 0 < h.keyLen && 0 ≤ h.dataLen && h.rangeMapNameLen < rangeMapNameMax

/-- `malloc(size)`。負の大きさは `size_t` では大きすぎて、いつも `NULL` になる。 -/
def Wake.mallocRecvBuf (wake : Wake) (size : Int) : Option (List UInt8) :=
  if size < 0 then none else wake.malloc.map fun mem => (List.range size.toNat).map mem

def beeCheckPayload (conn : BeeConn) : BeeOutcome :=
  if conn.ctx.recvBuf.getD conn.ctx.header.rangeMapNameLen.toNat 1 ≠ 0 then .exx
  else .dispatch conn.ctx

def beeReceivePayload (wake : Wake) (conn : BeeConn) (sock : Sock) : BeeOutcome × Sock :=
  let ctx := conn.ctx
  if hasBit wake.eventBits esqEventBitRead then
    match sock.read (ctx.payloadSize.toNat - ctx.offset) with
    | (.wouldBlock, sock) => (conn.readAgain wake, sock)
    | (.error, sock) => (.exx, sock)
    | (.closed, sock) => (.exx, sock)
    | (.data bytes, sock) =>
      if bytes.length = ctx.payloadSize.toNat - ctx.offset then
        (beeCheckPayload (conn.setCtx (ctx.fill bytes)), sock)
      else ((conn.setCtx ((ctx.fill bytes).advance bytes.length)).readAgain wake, sock)
  else (beeCheckPayload conn, sock)

def beeCheckHeader (wake : Wake) (conn : BeeConn) (sock : Sock) : BeeOutcome × Sock :=
  let header := HeaderFromPonyToBee.ofBytes conn.headerBuf
  if !header.accepted then (.exx, sock)
  else if beeOpTypeMask header.opcode = beeOpSync then (.merge header, sock)
  else
    match wake.mallocRecvBuf header.payloadSize with
    | none => (.exx, sock)
    | some recvBuf =>
      beeReceivePayload wake (conn.setCtx { conn.ctx with
        header, recvBuf
        opcode := beeOpTypeMask header.opcode
        payloadSize := header.payloadSize
        offset := 0
        lc := .payload }) sock

def beeReceiveHeader (wake : Wake) (conn : BeeConn) (sock : Sock) : BeeOutcome × Sock :=
  let need := headerSize - conn.ctx.offset
  let (r, bytes, sock) := osReadNb sock need
  if r ≤ 0 then (.exx, sock)
  else
    let conn : BeeConn := { conn with headerBuf := splice conn.headerBuf conn.ctx.offset bytes }
    if bytes.length = need then beeCheckHeader wake conn sock
    else ((conn.setCtx (conn.ctx.advance bytes.length)).readAgain wake, sock)

def beeResume (wake : Wake) (conn : BeeConn) (sock : Sock) : BeeOutcome × Sock :=
  match conn.ctx.lc with
  | .start =>
    beeReceiveHeader wake (conn.setCtx { conn.ctx with offset := 0, lc := .header }) sock
  | .header => beeReceiveHeader wake conn sock
  | .payload => beeReceivePayload wake conn sock

/-- `bee_session_receive_request` の、要求が揃うまで。 -/
def beeSessionReceiveRequest (wake : Wake) (conn : BeeConn) (sock : Sock) : BeeOutcome × Sock :=
  if hasBit wake.eventBits esqEventBitFdClose || hasBit wake.eventBits esqEventBitError
      || hasBit wake.eventBits esqEventBitTimeout || hasBit wake.eventBits esqEventBitExit then
    (.exx, sock)
  else beeResume wake conn sock

/-! ## 返事 -/

/--
`malloc` した領域の先頭から `n` byte の `write`。領域を越えた所には heap の中身が続く。
負の `n` は `size_t` では大きすぎて、何も書かれない。
-/
def writeBlock (block : List UInt8) (heap : Nat → UInt8) (n : Int) : List UInt8 :=
  block.take n.toNat ++ (List.range (n.toNat - block.length)).map heap

def beeWriteReply (ctx : BeeServiceCtx) (heap : Nat → UInt8) : List UInt8 :=
  match ctx.replyPtr with
  | some rp => writeBlock rp.bytes heap (rp.resultLen + timevalSize + replySize) ++ ctx.reply.bytes
  | none => ctx.reply.bytes

end Esq
