import Esq.Bee.Bucket
import Esq.RangeMap.Basic
import Mathlib.Data.List.TakeWhile

/-!
# bee の要求

`bee/db.c` の `bee_db_get`・`bee_db_set`・`bee_db_del`。

要求は `bee_session_receive_request` が `ctx` に受け取ったもので、`recv_buf` には map の名前、NUL、key、
`timeval`、data がこの順に並ぶ。map と node は変えず、bucket の中身だけを変える。

library と OS の呼び出しの結果（`malloc`、`kcdbset`、`kcdbremove`、他の node への送信）は外から与える。
-/

namespace Esq

open Infra

/-! ## 要求と返事 -/

def timevalSize : Nat := 16

structure HeaderFromPonyToBee where
  opcode : Int := 0
  rangeMapNameLen : Int := 0
  keyLen : Int := 0
  dataLen : Int := 0
  resultBufSize : Int := 0
deriving DecidableEq, Repr

structure ReplyFromBeeToPony where
  returnCode : Int := 0
  resultLen : Int := 0
deriving DecidableEq, Repr

/-- `reply_from_bee_to_pony_2_t`。`result` は `malloc` した残りの領域全体である。 -/
structure ReplyFromBeeToPony2 where
  returnCode : Int
  resultLen : Int
  result : List UInt8
deriving DecidableEq, Repr

inductive BeeLc where
  /-- `PT_RESET` の直後 -/
  | start
  /-- header を読む所 -/
  | header
  /-- payload を読む所 -/
  | payload
deriving DecidableEq, Repr

structure BeeServiceCtx where
  header : HeaderFromPonyToBee := {}
  recvBuf : List UInt8 := []
  payloadSize : Int := 0
  offset : Nat := 0
  opcode : Int := 0
  lc : BeeLc := .start
  reply : ReplyFromBeeToPony := {}
  replyPtr : Option ReplyFromBeeToPony2 := none
deriving DecidableEq, Repr

namespace BeeServiceCtx

variable (ctx : BeeServiceCtx)

def mapName : CStr := ⟨ctx.recvBuf.takeWhile (· ≠ 0), fun h => by simpa using List.mem_takeWhile_imp h⟩

def key : List UInt8 :=
  (ctx.recvBuf.drop (ctx.header.rangeMapNameLen.toNat + 1)).take ctx.header.keyLen.toNat

def tail : List UInt8 :=
  ctx.recvBuf.drop (ctx.header.rangeMapNameLen.toNat + 1 + ctx.header.keyLen.toNat)

def timeval : List UInt8 := ctx.tail.take timevalSize

def data : List UInt8 := (ctx.tail.drop timevalSize).take ctx.header.dataLen.toNat

def setRecord : List UInt8 := ctx.tail.take (timevalSize + ctx.header.dataLen.toNat)

end BeeServiceCtx

/-! ## chain -/

abbrev Buckets := Nat → BeeBucket

/-- `for (p = range_nodes; p; p = range_map_node_get_next(p))` が通る node。 -/
def rangeNodes (maps : RangeMaps) (p : Option Nat) : List Nat := walk maps.next maps.mallocs p

/-- `bee_db_get_local`。`ESQ_ERROR_NOTFOUND` は `none` で表す。 -/
def beeDbGetLocal (maps : RangeMaps) (buckets : Buckets) (key : List UInt8) (bufLen : Nat) :
    List Nat → Option (List UInt8 × Nat)
  | [] => none
  | p :: ps =>
    if hasFlag (maps.node p).flags rmNodeMe then
      match (maps.node p).bucket with
      | none => beeDbGetLocal maps buckets key bufLen ps
      | some b =>
        match beeBucketGet (buckets b) key bufLen with
        | some r => some r
        | none => beeDbGetLocal maps buckets key bufLen ps
    else beeDbGetLocal maps buckets key bufLen ps

/--
`bee_db_set_local` と `bee_db_del_local` の loop。`bucket` のある node を順に書き、
最初の失敗で止まる。`r` は `bucket` のある node が無いときの戻り値である。
-/
def beeDbWriteLocal (maps : RangeMaps) (write : BeeBucket → Bool → Int × BeeBucket)
    (ok : Nat → Bool) (r : Int) : List Nat → Buckets → Int × Buckets
  | [], buckets => (r, buckets)
  | p :: ps, buckets =>
    match (maps.node p).bucket with
    | none => beeDbWriteLocal maps write ok r ps buckets
    | some b =>
      let (r, bucket) := write (buckets b) (ok p)
      let buckets := Function.update buckets b bucket
      if r ≠ 0 then (r, buckets) else beeDbWriteLocal maps write ok r ps buckets

def beeDbSetLocal (maps : RangeMaps) (ctx : BeeServiceCtx) (ok : Nat → Bool) (nodes : List Nat)
    (buckets : Buckets) : Int × Buckets :=
  beeDbWriteLocal maps (fun b => beeBucketSet b ctx.key ctx.setRecord) ok esqErrorNotfound nodes
    buckets

def beeDbDelLocal (maps : RangeMaps) (ctx : BeeServiceCtx) (ok : Nat → Bool) (nodes : List Nat)
    (buckets : Buckets) : Int × Buckets :=
  beeDbWriteLocal maps (fun b => beeBucketDel b ctx.key ctx.timeval) ok esqOk nodes buckets

/-! ## 他の node への送信 -/

inductive Forward where
  /-- `os_open_tcp_socket` が失敗し、何も送っていない -/
  | noSocket
  /-- 相手に送り始めてから失敗した -/
  | broken
  | sent
deriving DecidableEq, Repr

def Forward.contacted : Forward → Bool
  | .noSocket => false
  | .broken => true
  | .sent => true

def beeDbForwardToNode : Forward → Int
  | .noSocket => esqErrorLibcall
  | .broken => esqErrorLibcall
  | .sent => esqOk

/-- `bee_db_sync_to_remote`。戻り値と、`bee_db_forward_to_node` を呼んだ node を返す。 -/
def beeDbSyncToRemote (maps : RangeMaps) (forward : Nat → Forward) : List Nat → Int × List Nat
  | [] => (esqOk, [])
  | p :: ps =>
    if hasFlag (maps.node p).flags rmNodeMe then beeDbSyncToRemote maps forward ps
    else
      match (maps.node p).bucket with
      | some _ => beeDbSyncToRemote maps forward ps
      | none =>
        let r := beeDbForwardToNode (forward p)
        if r ≠ 0 then (r, [p])
        else
          let (r, rest) := beeDbSyncToRemote maps forward ps
          (r, p :: rest)

/-! ## 要求の処理 -/

structure BeeNode where
  /-- `SHA256` -/
  sha256 : List UInt8 → HashT
  maps : RangeMaps

namespace BeeNode

variable (node : BeeNode)

def findNodes (name : CStr) (key : List UInt8) : Option Nat :=
  rangeMapFindAndLock node.maps name (node.sha256 key)

def chain (name : CStr) (key : List UInt8) : List Nat :=
  rangeNodes node.maps (node.findNodes name key)

end BeeNode

def BeeServiceCtx.exx (ctx : BeeServiceCtx) (r : Int) : BeeServiceCtx :=
  { ctx with reply := { returnCode := r, resultLen := 0 } }

def BeeServiceCtx.setReplyPtr (ctx : BeeServiceCtx) (p : Option ReplyFromBeeToPony2) :
    BeeServiceCtx :=
  { ctx with replyPtr := p }

def overwrite (buf bytes : List UInt8) : List UInt8 := bytes ++ buf.drop bytes.length

/--
`bee_db_get`。`malloc` は `reply_ptr` に割り当てられた領域で、中身は決まっていない。
`NULL` は `none` で表す。戻り値の一つ目は、抜けるときの `r` である。
-/
def beeDbGet (node : BeeNode) (buckets : Buckets) (malloc : Option ReplyFromBeeToPony2)
    (ctx : BeeServiceCtx) : Int × BeeServiceCtx :=
  if ctx.header.resultBufSize ≤ 0 then
    (esqErrorParam, (ctx.setReplyPtr none).exx esqErrorParam)
  else
    match malloc with
    | none => (esqErrorMemory, (ctx.setReplyPtr none).exx esqErrorMemory)
    | some mem =>
      match node.findNodes ctx.mapName ctx.key with
      | none => (esqErrorNotfound, (ctx.setReplyPtr mem).exx esqErrorNotfound)
      | some p =>
        match beeDbGetLocal node.maps buckets ctx.key ctx.header.resultBufSize.toNat
            (rangeNodes node.maps (some p)) with
        | none => (esqErrorNotfound, (ctx.setReplyPtr mem).exx esqErrorNotfound)
        | some (written, resultSize) =>
          let result := overwrite mem.result written
          if resultSize ≤ timevalSize then
            (esqErrorNotfound, (ctx.setReplyPtr (some { mem with result })).exx esqErrorNotfound)
          else
            (esqOk, ctx.setReplyPtr (some
              { returnCode := esqOk, resultLen := resultSize - timevalSize, result }))

/-- 書き込みの要求の間に呼ばれる library と OS の結果。 -/
structure WriteIo where
  /-- node の bucket に書く `kcdbset` か `kcdbremove` が成功する -/
  kcdbOk : Nat → Bool
  forward : Nat → Forward

structure WriteResult where
  /-- 抜けるときの `r` -/
  r : Int
  ctx : BeeServiceCtx
  buckets : Buckets
  /-- `bee_db_forward_to_node` を呼んだ node -/
  forwarded : List Nat

/-- `session->header->opcode = opcode`。`bee_db_forward_to_node` を呼んだときに書かれる。 -/
def BeeServiceCtx.forwardAs (ctx : BeeServiceCtx) (op : Int) (forwarded : List Nat) :
    BeeServiceCtx :=
  if forwarded = [] then ctx else { ctx with header := { ctx.header with opcode := op } }

/--
`bee_db_set` と `bee_db_del` の本体。`writeLocal` は `bee_db_set_local` か `bee_db_del_local`、
`op` は他の node へ送るときの opcode である。
-/
def beeDbWrite (node : BeeNode) (io : WriteIo)
    (writeLocal : (Nat → Bool) → List Nat → Buckets → Int × Buckets) (op : Int)
    (buckets : Buckets) (ctx : BeeServiceCtx) (needSync : Bool) : WriteResult :=
  match node.findNodes ctx.mapName ctx.key with
  | none =>
    { r := esqErrorNotfound, ctx := ctx.exx esqErrorNotfound, buckets, forwarded := [] }
  | some p =>
    let nodes := rangeNodes node.maps (some p)
    let (r, buckets) := writeLocal io.kcdbOk nodes buckets
    if r ≠ 0 then { r, ctx := ctx.exx r, buckets, forwarded := [] }
    else if needSync then
      let (r, forwarded) := beeDbSyncToRemote node.maps io.forward nodes
      { r, ctx := (ctx.forwardAs op forwarded).exx r, buckets, forwarded }
    else { r, ctx := ctx.exx esqOk, buckets, forwarded := [] }

def beeOpInternalSet : Int := 8

def beeOpInternalDel : Int := 9

def beeDbSet (node : BeeNode) (io : WriteIo) (buckets : Buckets) (ctx : BeeServiceCtx)
    (needSync : Bool) : WriteResult :=
  beeDbWrite node io (beeDbSetLocal node.maps ctx) beeOpInternalSet buckets ctx needSync

def beeDbDel (node : BeeNode) (io : WriteIo) (buckets : Buckets) (ctx : BeeServiceCtx)
    (needSync : Bool) : WriteResult :=
  beeDbWrite node io (beeDbDelLocal node.maps ctx) beeOpInternalDel buckets ctx needSync

end Esq
