import Esq.Bee.Monkey
import Esq.Pony
import Esq.Session.McoService

/-!
# pony を呼ぶ coroutine

`mco/socket.c` と、`src/pony.c` の `pony` と `pony_monkey`。どちらも coroutine の中から呼ばれ、
socket が `EAGAIN` を返すたびに fd を仕掛けて手放す。

`pony` は読み書きの途中でだけ fd を仕掛ける。`pony_monkey` は接続の前に一度仕掛けておくので、
その後で仕掛け直すことも、coroutine を終えることもできない。

* `service_gated` — `pony` と `pony_monkey` を呼ぶ coroutine は、読み書きの途中で fd を仕掛けたら
  必ず手放す
* `pony_service_safe` — 先に仕掛けることに成功しない run は `INVALID_ACTION_TYPE` に着かず、
  終わった run は先に仕掛けることに成功していない
-/

namespace Esq

open Infra

/-! ## OS の呼び出し -/

/-- coroutine が呼ぶもののうち、結果が外で決まるもの。 -/
inductive PonyOs where
  | getTimeOfDay
  | rangeMapGetMainAddress (rangeMapName : CStr) (key : List UInt8)
  | openTcpSocket (blocking seconds : Int)
  | fastOpenSendto (fd : Int) (buf : List UInt8)
  | write (fd : Int) (buf : List UInt8)
  | read (fd : Int) (len : Int)
  | close (fd : Int)

abbrev PonyCo := Co (McoCall PonyOs) OsResult

def callOs (c : PonyOs) : PonyCo OsResult := Co.query (.os c)

namespace OnMco

/-! ## socket の読み書き -/

structure SocketIo where
  call : PonyOs
  fd : Int
  /-- 書けるのを待つ。そうでなければ読めるのを待つ -/
  forWrite : Bool
  /-- 諦めたときの戻り値 -/
  giveUp : Int
  len : Int

/-- `esq_session_set_socket_fd(esq_session, fd, NULL, ..., 10, 0, NULL)` -/
def SocketIo.params (io : SocketIo) : FdParams where
  fd := io.fd
  expEventBits := if io.forWrite then esqEventBitWrite else esqEventBitRead
  timeouts := 10

/--
`for(;;)` の loop。`buf` は渡した領域の中身で、読むたびに先頭から書き直される。

`EAGAIN` は三度まで待つ。一部だけ進んだときは待たずに繰り返す。
-/
def ioLoop (io : SocketIo) (cl : Nat) (offset : Int) (buf : List UInt8) :
    PonyCo (Int × List UInt8) :=
  if mcoSocketIoMaxRetry ≤ cl then .done (io.giveUp, buf)
  else
    .ask (.os io.call) fun res =>
      if res.r = 0 then
        .ask (.setSocketFd io.params) fun armed =>
          if armed.r ≠ 0 then .done (armed.r, buf)
          else .yield (ioLoop io (cl + 1) offset (splice buf 0 res.bytes))
      else if res.r = -1 then .done (esqErrorLibcall, buf)
      else if 0 < res.r then
        let buf := splice buf 0 res.bytes
        if offset + res.r = io.len then .done (esqOk, buf)
        else if io.len < offset + res.r then .done (esqErrorLibcall, buf)
        else ioLoop io cl (offset + res.r) buf
      else .done (esqErrorLibcall, buf)
termination_by (mcoSocketIoMaxRetry - cl) + (io.len - offset).toNat

def SocketIo.connectWrite (fd : Int) (buf : List UInt8) : SocketIo where
  call := .fastOpenSendto fd buf
  fd := fd
  forWrite := true
  giveUp := esqErrorTimeout
  len := buf.length

def SocketIo.write (fd : Int) (buf : List UInt8) : SocketIo where
  call := .write fd buf
  fd := fd
  forWrite := true
  giveUp := esqErrorLibcall
  len := buf.length

def SocketIo.read (fd len : Int) : SocketIo where
  call := .read fd len
  fd := fd
  forWrite := false
  giveUp := esqErrorTimeout
  len := len

def esqMcoSocketConnectWrite (fd : Int) (buf : List UInt8) : PonyCo Int := do
  let res ← ioLoop (.connectWrite fd buf) 0 0 []
  return res.1

def esqMcoSocketWrite (fd : Int) (buf : List UInt8) : PonyCo Int := do
  let res ← ioLoop (.write fd buf) 0 0 []
  return res.1

/-- `esq_mco_socket_read`。`buf` は渡した領域の元の中身である。 -/
def esqMcoSocketRead (fd : Int) (buf : List UInt8) (len : Int) : PonyCo (Int × List UInt8) :=
  ioLoop (.read fd len) 0 0 buf

/-! ## pony -/

def closeWith (fd : Int) (res : PonyResult) : PonyCo PonyResult := do
  let _ ← callOs (.close fd)
  return res

/-- 順に書く。どれかが失敗したら、その値を返す。 -/
def writeAll (fd : Int) : List (List UInt8) → PonyCo Int
  | [] => return esqOk
  | buf :: bufs => do
    let r ← esqMcoSocketWrite fd buf
    if r ≠ 0 then return r else writeAll fd bufs

def ponyReceiveResult (fd : Int) (stack : List UInt8) (resultBufSize : Option Int)
    (reply : ReplyFromBeeToPony) : PonyCo PonyResult :=
  if reply.resultLen = 0 then closeWith fd { r := reply.returnCode, result := [] }
  else
    match resultBufSize with
    | none => closeWith fd { r := esqErrorSize, result := [] }
    | some size =>
      if size < reply.resultLen then closeWith fd { r := esqErrorSize, result := [] }
      else do
        let (r, _) ← esqMcoSocketRead fd stack timevalSize
        if r ≠ 0 then closeWith fd { r := esqErrorTbd, result := [] }
        else
          let (r, buf) ← esqMcoSocketRead fd stack reply.resultLen
          if r ≠ 0 then closeWith fd { r, result := [] }
          else closeWith fd { r := reply.returnCode, result := buf.take reply.resultLen.toNat }

/-- `pony` の、socket を開いた後。data は空なら送らない。 -/
def ponyTransfer (fd : Int) (stack : List UInt8) (req : PonyRequest) : PonyCo PonyResult := do
  let r ← esqMcoSocketConnectWrite fd req.header.bytes
  if r ≠ 0 then closeWith fd { r, result := [] }
  else
    let r ← writeAll fd ([req.rangeMapName.bytes ++ [0], req.key, req.timeval]
      ++ if req.data = [] then [] else [req.data])
    if r ≠ 0 then closeWith fd { r, result := [] }
    else
      let (r, buf) ← esqMcoSocketRead fd stack replySize
      if r ≠ 0 then closeWith fd { r, result := [] }
      else ponyReceiveResult fd stack req.resultBufSize (ReplyFromBeeToPony.ofBytes buf)

/-- `pony`。`stack` は返事を読む領域の元の中身である。 -/
def pony (stack : List UInt8) (req : PonyRequest) : PonyCo PonyResult :=
  if req.key = [] then return { r := esqErrorParam, result := [] }
  else do
    let time ← callOs .getTimeOfDay
    if time.r ≠ 0 then return { r := esqErrorLibcall, result := [] }
    else
      let address ← callOs (.rangeMapGetMainAddress req.rangeMapName req.key)
      if address.r ≠ 0 then return { r := esqErrorNotfound, result := [] }
      else
        let fd ← callOs (.openTcpSocket 0 0)
        if fd.r = -1 then return { r := esqErrorLibcall, result := [] }
        else ponyTransfer fd.r stack req

/-! ## pony_monkey -/

structure PonyMonkeyRequest where
  types : MkcTypes
  ctx : PonyMonkeyCtx
  /-- `script` が NULL のときは `none` -/
  script : Option (List UInt8)
  /-- 終端の NUL を含む -/
  scriptLength : Int
  rangeMapName : CStr
  timeval : List UInt8
  /-- `result_buf` と `result_buf_size` のどちらかが NULL のときは `none` -/
  resultBufSize : Option Int

structure MonkeyReplyFromBeeToPony where
  returnCode : Int
  resultLen : Int
  type : Int
deriving DecidableEq, Repr

def monkeyReplySize : Nat := 12

def MonkeyReplyFromBeeToPony.ofBytes (buf : List UInt8) : MonkeyReplyFromBeeToPony where
  returnCode := intAt buf 0
  resultLen := intAt buf 1
  type := intAt buf 2

namespace PonyMonkeyRequest

variable (req : PonyMonkeyRequest)

def scriptBytes (script : List UInt8) : List UInt8 := script.take req.scriptLength.toNat

def header : HeaderFromPonyToBee where
  opcode := beeOpMonkey
  rangeMapNameLen := req.rangeMapName.bytes.length
  keyLen := req.scriptLength
  dataLen := ponyMonkeyGetDataLength req.ctx.params
  resultBufSize := req.resultBufSize.getD 0

def params (_ : PonyMonkeyRequest) (fd : Int) : FdParams where
  fd := fd
  expEventBits := orBits esqEventBitRead esqEventBitWrite

end PonyMonkeyRequest

def sendValue (types : MkcTypes) (fd : Int) (param : PonyMonkeyParam) : PonyCo Int :=
  if types.int = param.type then esqMcoSocketWrite fd (valueBytes param.value)
  else if types.buf = param.type then esqMcoSocketWrite fd param.dataBytes
  else if types.id = param.type then esqMcoSocketWrite fd param.dataBytes
  else .abort

def ponyMonkeySendData (types : MkcTypes) (fd : Int) : List PonyMonkeyParam → PonyCo Int
  | [] => return esqOk
  | param :: params => do
    let r ← esqMcoSocketWrite fd param.header
    if r ≠ 0 then return esqErrorLibcall
    else
      let r ← esqMcoSocketWrite fd param.nameBytes
      if r ≠ 0 then return r
      else
        let r ← sendValue types fd param
        if r ≠ 0 then return r else ponyMonkeySendData types fd params

/-- `required_length`。buffer には終端の NUL を足す。`int` で計算する。 -/
def MonkeyReplyFromBeeToPony.requiredLength (reply : MonkeyReplyFromBeeToPony)
    (types : MkcTypes) : Int :=
  if reply.type = types.buf then toInt32 (reply.resultLen + 1) else reply.resultLen

/-- `pony_monkey` の、返事の header を読んだ後。 -/
def ponyMonkeyReceiveResult (fd : Int) (stack : List UInt8) (req : PonyMonkeyRequest)
    (reply : MonkeyReplyFromBeeToPony) : PonyCo PonyResult :=
  match req.resultBufSize with
  | none => closeWith fd { r := reply.returnCode, result := [] }
  | some size =>
    if reply.resultLen = 0 ∨ reply.returnCode ≠ esqOk then
      closeWith fd { r := reply.returnCode, result := [] }
    else if size < reply.requiredLength req.types then closeWith fd { r := esqErrorSize, result := [] }
    else do
      let (r, buf) ← esqMcoSocketRead fd stack reply.resultLen
      if r ≠ 0 then closeWith fd { r, result := [] }
      else closeWith fd { r := reply.returnCode, result := buf.take reply.resultLen.toNat }

def ponyMonkeyTransfer (fd : Int) (stack script : List UInt8) (req : PonyMonkeyRequest) :
    PonyCo PonyResult := do
  let r ← esqMcoSocketConnectWrite fd req.header.bytes
  if r ≠ 0 then closeWith fd { r, result := [] }
  else
    let r ← writeAll fd [req.rangeMapName.bytes ++ [0], req.scriptBytes script, req.timeval]
    if r ≠ 0 then closeWith fd { r, result := [] }
    else
      let r ← ponyMonkeySendData req.types fd req.ctx.params
      if r ≠ 0 then closeWith fd { r, result := [] }
      else
        let (r, buf) ← esqMcoSocketRead fd stack monkeyReplySize
        if r ≠ 0 then closeWith fd { r, result := [] }
        else ponyMonkeyReceiveResult fd stack req (MonkeyReplyFromBeeToPony.ofBytes buf)

/-- `pony_monkey` の、`pony_check_ctx` の後。 -/
def ponyMonkeyStart (stack script : List UInt8) (req : PonyMonkeyRequest) : PonyCo PonyResult := do
  let time ← callOs .getTimeOfDay
  if time.r ≠ 0 then return { r := esqErrorLibcall, result := [] }
  else
    let address ← callOs
      (.rangeMapGetMainAddress req.rangeMapName (script.take (req.scriptLength - 1).toNat))
    if address.r ≠ 0 then return { r := esqErrorNotfound, result := [] }
    else
      let fd ← callOs (.openTcpSocket 0 10)
      if fd.r = -1 then return { r := esqErrorLibcall, result := [] }
      else
        let armed ← Co.query (.setSocketFd (req.params fd.r))
        if armed.r ≠ 0 then closeWith fd.r { r := armed.r, result := [] }
        else ponyMonkeyTransfer fd.r stack script req

def ponyMonkey (stack : List UInt8) (req : PonyMonkeyRequest) : PonyCo PonyResult :=
  if req.ctx.magic ≠ ponyMonkeyCtxMagic then .abort
  else
    match req.script with
    | none => return { r := esqErrorParam, result := [] }
    | some script =>
      if req.scriptLength ≤ 0 then return { r := esqErrorParam, result := [] }
      else ponyMonkeyStart stack script req

end OnMco

/-! ## service -/

/-- pony と pony_monkey を何度か呼んで終わる service。次に何を呼ぶかは前の結果で決めてよい。 -/
inductive PonyService where
  | stop
  | pony (stack : List UInt8) (req : PonyRequest) (next : PonyResult → PonyService)
  | ponyMonkey (stack : List UInt8) (req : OnMco.PonyMonkeyRequest)
    (next : PonyResult → PonyService)

def PonyService.co : PonyService → PonyCo Unit
  | stop => return ()
  | pony stack req next => do
    let res ← OnMco.pony stack req
    (next res).co
  | ponyMonkey stack req next => do
    let res ← OnMco.ponyMonkey stack req
    (next res).co

/-! ## 手放す所 -/

section

variable {C : Type} {io : OnMco.SocketIo} {cl : Nat} {offset : Int} {buf : List UInt8}

def OnDemand : McoCall C → Prop
  | .os _ => True
  | .setSocketFd params => ¬ params.upFront

theorem gated_callOs (c : PonyOs) : (callOs c).Gated OnDemand armsSocketFd :=
  .query trivial fun _ => id

theorem OnMco.SocketIo.not_upFront (io : OnMco.SocketIo) : ¬ io.params.upFront := by
  have h : (if io.forWrite then esqEventBitWrite else esqEventBitRead)
      ≠ orBits esqEventBitRead esqEventBitWrite := by
    cases io.forWrite <;> decide
  exact h

/-- **読み書きの loop は、fd を仕掛けたら必ず手放す。** -/
theorem gated_ioLoop (io : OnMco.SocketIo) (cl : Nat) (offset : Int) (buf : List UInt8) :
    (OnMco.ioLoop io cl offset buf).Gated OnDemand armsSocketFd := by
  rw [OnMco.ioLoop]
  split
  · exact .done _
  refine .plain trivial (fun _ => id) fun res => ?_
  split
  · refine .ask _ _ (fun armed => if armed.r ≠ 0 then .done (armed.r, buf)
      else OnMco.ioLoop io (cl + 1) offset (splice buf 0 res.bytes))
      io.not_upFront ?_ ?_ ?_
    · rintro armed ⟨-, harmed⟩
      rw [if_neg (not_not.mpr harmed), if_neg (not_not.mpr harmed)]
    · intro armed hno
      have harmed : armed.r ≠ 0 := fun h => hno ⟨io.not_upFront, h⟩
      rw [if_pos harmed, if_pos harmed]
    · intro armed
      split
      · exact .done _
      · exact gated_ioLoop io (cl + 1) offset _
  split
  · exact .done _
  split
  · dsimp only
    split
    · exact .done _
    split
    · exact .done _
    · exact gated_ioLoop io cl (offset + res.r) _
  · exact .done _
termination_by (mcoSocketIoMaxRetry - cl) + (io.len - offset).toNat

theorem gated_connectWrite (fd : Int) (buf : List UInt8) :
    (OnMco.esqMcoSocketConnectWrite fd buf).Gated OnDemand armsSocketFd :=
  (gated_ioLoop _ _ _ _).bind fun _ => .done _

theorem gated_write (fd : Int) (buf : List UInt8) :
    (OnMco.esqMcoSocketWrite fd buf).Gated OnDemand armsSocketFd :=
  (gated_ioLoop _ _ _ _).bind fun _ => .done _

theorem gated_read (fd : Int) (buf : List UInt8) (len : Int) :
    (OnMco.esqMcoSocketRead fd buf len).Gated OnDemand armsSocketFd := gated_ioLoop _ _ _ _

theorem gated_closeWith (fd : Int) (res : PonyResult) :
    (OnMco.closeWith fd res).Gated OnDemand armsSocketFd := (gated_callOs _).bind fun _ => .done _

theorem gated_writeAll (fd : Int) (bufs : List (List UInt8)) :
    (OnMco.writeAll fd bufs).Gated OnDemand armsSocketFd := by
  induction bufs with
  | nil => exact .done _
  | cons buf bufs ih =>
    refine (gated_write fd buf).bind fun r => ?_
    split
    · exact .done _
    · exact ih

theorem gated_ponyReceiveResult (fd : Int) (stack : List UInt8) (size : Option Int)
    (reply : ReplyFromBeeToPony) :
    (OnMco.ponyReceiveResult fd stack size reply).Gated OnDemand armsSocketFd := by
  unfold OnMco.ponyReceiveResult
  split
  · exact gated_closeWith _ _
  split
  · exact gated_closeWith _ _
  split
  · exact gated_closeWith _ _
  refine (gated_read _ _ _).bind fun res => ?_
  dsimp only
  split
  · exact gated_closeWith _ _
  refine (gated_read _ _ _).bind fun res => ?_
  split
  · exact gated_closeWith _ _
  · exact gated_closeWith _ _

theorem gated_ponyTransfer (fd : Int) (stack : List UInt8) (req : PonyRequest) :
    (OnMco.ponyTransfer fd stack req).Gated OnDemand armsSocketFd := by
  refine (gated_connectWrite _ _).bind fun r => ?_
  split
  · exact gated_closeWith _ _
  refine (gated_writeAll _ _).bind fun r => ?_
  split
  · exact gated_closeWith _ _
  refine (gated_read _ _ _).bind fun res => ?_
  dsimp only
  split
  · exact gated_closeWith _ _
  · exact gated_ponyReceiveResult _ _ _ _

theorem gated_pony (stack : List UInt8) (req : PonyRequest) :
    (OnMco.pony stack req).Gated OnDemand armsSocketFd := by
  unfold OnMco.pony
  split
  · exact .done _
  refine (gated_callOs _).bind fun time => ?_
  split
  · exact .done _
  refine (gated_callOs _).bind fun address => ?_
  split
  · exact .done _
  refine (gated_callOs _).bind fun fd => ?_
  split
  · exact .done _
  · exact gated_ponyTransfer _ _ _

theorem gated_sendValue (types : MkcTypes) (fd : Int) (param : PonyMonkeyParam) :
    (OnMco.sendValue types fd param).Gated OnDemand armsSocketFd := by
  unfold OnMco.sendValue
  split
  · exact gated_write _ _
  split
  · exact gated_write _ _
  split
  · exact gated_write _ _
  · exact .abort

theorem gated_ponyMonkeySendData (types : MkcTypes) (fd : Int) (params : List PonyMonkeyParam) :
    (OnMco.ponyMonkeySendData types fd params).Gated OnDemand armsSocketFd := by
  induction params with
  | nil => exact .done _
  | cons param params ih =>
    refine (gated_write _ _).bind fun r => ?_
    split
    · exact .done _
    refine (gated_write _ _).bind fun r => ?_
    split
    · exact .done _
    refine (gated_sendValue _ _ _).bind fun r => ?_
    split
    · exact .done _
    · exact ih

theorem gated_ponyMonkeyReceiveResult (fd : Int) (stack : List UInt8)
    (req : OnMco.PonyMonkeyRequest) (reply : OnMco.MonkeyReplyFromBeeToPony) :
    (OnMco.ponyMonkeyReceiveResult fd stack req reply).Gated OnDemand armsSocketFd := by
  unfold OnMco.ponyMonkeyReceiveResult
  split
  · exact gated_closeWith _ _
  split
  · exact gated_closeWith _ _
  split
  · exact gated_closeWith _ _
  refine (gated_read _ _ _).bind fun res => ?_
  dsimp only
  split
  · exact gated_closeWith _ _
  · exact gated_closeWith _ _

theorem gated_ponyMonkeyTransfer (fd : Int) (stack script : List UInt8)
    (req : OnMco.PonyMonkeyRequest) :
    (OnMco.ponyMonkeyTransfer fd stack script req).Gated OnDemand armsSocketFd := by
  refine (gated_connectWrite _ _).bind fun r => ?_
  split
  · exact gated_closeWith _ _
  refine (gated_writeAll _ _).bind fun r => ?_
  split
  · exact gated_closeWith _ _
  refine (gated_ponyMonkeySendData _ _ _).bind fun r => ?_
  split
  · exact gated_closeWith _ _
  refine (gated_read _ _ _).bind fun res => ?_
  dsimp only
  split
  · exact gated_closeWith _ _
  · exact gated_ponyMonkeyReceiveResult _ _ _ _

theorem gated_ponyMonkey (stack : List UInt8) (req : OnMco.PonyMonkeyRequest) :
    (OnMco.ponyMonkey stack req).Gated (fun _ => True) armsSocketFd := by
  have hany : ∀ q : McoCall PonyOs, OnDemand q → True := fun _ _ => trivial
  unfold OnMco.ponyMonkey
  split
  · exact .abort
  split
  · exact .done _
  split
  · exact .done _
  refine ((gated_callOs _).mono hany).bind fun time => ?_
  split
  · exact .done _
  refine ((gated_callOs _).mono hany).bind fun address => ?_
  split
  · exact .done _
  refine ((gated_callOs _).mono hany).bind fun fd => ?_
  split
  · exact .done _
  -- 先に仕掛けるのは、読み書きの途中で仕掛けるのとは別である
  refine (Co.Gated.query trivial fun _ h => h.1 rfl).bind fun armed => ?_
  split
  · exact (gated_closeWith _ _).mono hany
  · exact (gated_ponyMonkeyTransfer _ _ _ _).mono hany

/-- **pony と pony_monkey を呼ぶ coroutine は、読み書きの途中で fd を仕掛けたら必ず手放す。** -/
theorem service_gated (svc : PonyService) : svc.co.Gated (fun _ => True) armsSocketFd := by
  induction svc with
  | stop => exact .done _
  | pony stack req next ih => exact ((gated_pony stack req).mono fun _ _ => trivial).bind ih
  | ponyMonkey stack req next ih => exact (gated_ponyMonkey stack req).bind ih

inductive PonyService.PonyOnly : PonyService → Prop where
  | stop : PonyOnly stop
  | pony (stack : List UInt8) (req : PonyRequest) (next : PonyResult → PonyService)
    (hnext : ∀ res, PonyOnly (next res)) : PonyOnly (pony stack req next)

theorem PonyService.PonyOnly.gated {svc : PonyService} (h : svc.PonyOnly) :
    svc.co.Gated OnDemand armsSocketFd := by
  induction h with
  | stop => exact .done _
  | pony stack req next hnext ih => exact (gated_pony stack req).bind ih

end

/-! ## service の run -/

/-- `esq_start_mco_session` の、`esq_session_wind_up` の前。 -/
def PonyService.session (svc : PonyService) : CoSession PonyOs := .new svc.co

theorem PonyService.phase (svc : PonyService) : CoPhase (fun _ => True) svc.session :=
  .start rfl rfl rfl rfl (service_gated svc)

theorem PonyService.PonyOnly.along_good {svc : PonyService} (h : svc.PonyOnly)
    (inputs : List CoInput) : Along coStep? CoSession.good svc.session inputs :=
  CoPhase.along_good inputs (.start rfl rfl rfl rfl h.gated) fun _ h => h

/-- **pony だけを呼ぶ service は、socket と event がどう進んでも `INVALID_ACTION_TYPE` に着かない。** -/
theorem pony_only_safe {svc : PonyService} (h : svc.PonyOnly) (inputs : List CoInput) :
    ∃ st, inputs.foldlM coStep svc.session = .ok st := by
  obtain ⟨st, hst, -⟩ := svc.phase.run inputs (h.along_good inputs)
  exact ⟨st, hst⟩

/--
**pony と pony_monkey を呼ぶ service は、`pony_monkey` が接続の前に fd を仕掛けることに
成功しない限り、socket と event がどう進んでも `INVALID_ACTION_TYPE` に着かない。
逆に、終わって解放された service は、一度もそれに成功していない。**
-/
theorem pony_service_safe (svc : PonyService) (inputs : List CoInput) :
    (Along coStep? CoSession.good svc.session inputs →
        ∃ st, inputs.foldlM coStep svc.session = .ok st)
      ∧ ∀ st, inputs.foldlM coStep svc.session = .ok st → st.session.magic = false →
        Along coStep? CoSession.good svc.session inputs := by
  refine ⟨fun hgood => ?_, fun st hrun hend => svc.phase.run_ended inputs hrun hend⟩
  obtain ⟨st, hst, -⟩ := svc.phase.run inputs hgood
  exact ⟨st, hst⟩

def samplePonyRequest : PonyRequest where
  opcode := beeOpDbGet
  rangeMapName := .empty
  key := [0x6b]
  data := []
  timeval := List.replicate timevalSize 0
  resultBufSize := none

def samplePonyService : PonyService := .pony [] samplePonyRequest fun _ => .stop

/-- 接続が一度 `EAGAIN` になり、event で起こされてから失敗する。 -/
theorem pony_service_safe_sample :
    ∃ st, [CoInput.start, .execute, .proceed { r := 0 } 0, .proceed { r := 0 } 0,
      .proceed { r := 7 } 0, .proceed { r := 0 } 0, .proceed { r := 0 } 0, .proceed { r := 0 } 0,
      .notify (.notifyEvent esqEventBitWrite), .notify .notifyExit, .execute,
      .proceed { r := -1 } 0, .proceed { r := 0 } 0, .proceed { r := 0 } 0].foldlM coStep
        samplePonyService.session = .ok st :=
  (pony_service_safe samplePonyService _).1
    ((PonyService.PonyOnly.pony _ _ _ fun _ => .stop).along_good _)

theorem pony_only_safe_sample :
    ∃ st, [CoInput.start, .execute, .proceed { r := 0 } 0, .proceed { r := 0 } 0,
      .proceed { r := 7 } 0, .notify .notifyExit].foldlM coStep samplePonyService.session = .ok st :=
  pony_only_safe (.pony _ _ _ fun _ => .stop) _

def sampleMonkeyRequest (types : MkcTypes) : OnMco.PonyMonkeyRequest where
  types := types
  ctx := { valuesMax := 0, magic := ponyMonkeyCtxMagic, params := [] }
  script := some [0x66, 0]
  scriptLength := 2
  rangeMapName := .empty
  timeval := List.replicate timevalSize 0
  resultBufSize := none

def sampleMonkeyService (types : MkcTypes) : PonyService :=
  .ponyMonkey [] (sampleMonkeyRequest types) fun _ => .stop

/-- fd を仕掛けることに成功してから接続に失敗し、そのまま終わる run。 -/
def sampleMonkeyRun : List CoInput :=
  [.start, .execute, .proceed { r := 0 } 0, .proceed { r := 0 } 0, .proceed { r := 7 } 0,
    .proceed { r := 0 } 0, .proceed { r := -1 } 0, .proceed { r := 0 } 0, .proceed { r := 0 } 0]

/-- **fd を仕掛けた `pony_monkey` の service は、終わるときに `INVALID_ACTION_TYPE` に着く。** -/
theorem pony_monkey_ends_in_invalid_action : ¬ ∀ (svc : PonyService) (inputs : List CoInput),
    ∃ st, inputs.foldlM coStep svc.session = .ok st := by
  intro h
  obtain ⟨st, hst⟩ := h (sampleMonkeyService .sample) sampleMonkeyRun
  have herr : (sampleMonkeyRun.foldlM coStep (sampleMonkeyService .sample).session).map (·.lc)
      = .error .invalidActionType := by decide +kernel
  rw [hst] at herr
  cases herr

end Esq
