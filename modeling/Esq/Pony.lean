import Esq.Bee.Session

/-!
# pony

`src/pony.c` の `pony`。要求の送信と、返事の受信。

送る byte は、header、map の名前と NUL、key、`timeval`、data をこの順に並べたものである。
受信では、`esq_mco_socket_read` を呼んだときに相手の書いた byte はすべて届いていて、その後は閉じている。
-/

namespace Esq

open Infra

/-! ## 送信 -/

structure PonyRequest where
  opcode : Int
  rangeMapName : CStr
  key : List UInt8
  data : List UInt8
  timeval : List UInt8
  /-- `result_buf` と `result_buf_size` のどちらかが NULL のときは `none` -/
  resultBufSize : Option Int

namespace PonyRequest

variable (req : PonyRequest)

def header : HeaderFromPonyToBee where
  opcode := req.opcode
  rangeMapNameLen := req.rangeMapName.bytes.length
  keyLen := req.key.length
  dataLen := req.data.length
  resultBufSize := req.resultBufSize.getD 0

def payload : List UInt8 := req.rangeMapName.bytes ++ [0] ++ req.key ++ req.timeval ++ req.data

def bytes : List UInt8 := req.header.bytes ++ req.payload

end PonyRequest

/-! ## 受信 -/

/--
`esq_mco_socket_read`。戻り値、読んだ byte、残り。

足りなければ `os_read_nb` が 0 を返し続け、`MCO_SOCKET_IO_MAX_RETRY` 回で諦める。
負の長さの `read` は失敗する。
-/
def esqMcoSocketRead (stream : List UInt8) (len : Int) : Int × List UInt8 × List UInt8 :=
  if len < 0 then (esqErrorLibcall, [], stream)
  else if len = 0 ∨ stream.length < len.toNat then (esqErrorTimeout, [], [])
  else (esqOk, stream.take len.toNat, stream.drop len.toNat)

structure PonyResult where
  r : Int
  result : List UInt8
deriving DecidableEq, Repr

/-- `pony` の、返事の header を読んだ後。`resultBufSize` は `*result_buf_size` である。 -/
def ponyReceiveResult (resultBufSize : Option Int) (reply : ReplyFromBeeToPony)
    (stream : List UInt8) : PonyResult :=
  if reply.resultLen = 0 then { r := reply.returnCode, result := [] }
  else
    match resultBufSize with
    | none => { r := esqErrorSize, result := [] }
    | some size =>
      if size < reply.resultLen then { r := esqErrorSize, result := [] }
      else
        let (r, _, stream) := esqMcoSocketRead stream timevalSize
        if r ≠ 0 then { r := esqErrorTbd, result := [] }
        else
          let (r, result, _) := esqMcoSocketRead stream reply.resultLen
          if r ≠ 0 then { r, result := [] } else { r := reply.returnCode, result }

def ponyReceive (resultBufSize : Option Int) (stream : List UInt8) : PonyResult :=
  let (r, bytes, stream) := esqMcoSocketRead stream replySize
  if r ≠ 0 then { r, result := [] }
  else ponyReceiveResult resultBufSize (ReplyFromBeeToPony.ofBytes bytes) stream

end Esq
