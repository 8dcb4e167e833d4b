import Esq.Session.Basic

/-!
# coroutine の状態機械

`session/pt_of_mco.c`。callback の代わりに coroutine を再開する session である。
`isEnd` は `mco_is_end(session->mco)`、`os` は `esq_os_events_*` の戻り値で、どちらも
その action の間だけ見る。

coroutine が動いている間の label は二つある。`__execute_cb` は fd を仕掛けていないとき、
`__execute_cb_installed_socket_fd` は仕掛けて timing list にも入ったときである。
後者で届いた event は `event_bits2` に溜まり、届くたびに timing list から抜ける。
-/

namespace Esq

open Infra

inductive McoLabel where
  | start
  | active
  | windedUp
  | executeCb
  | executeCbInstalledSocketFd
deriving DecidableEq, Repr

namespace McoPt

/-- protothread の先頭。active list に入って `__active` で止まる。 -/
def start (p : PtRun) : PtRun × McoLabel :=
  (p.joinActiveList.returnValue esqOk, .active)

def active (p : PtRun) : Action → Except Fault (PtRun × McoLabel)
  | .notifyEvent bits => .ok ((p.addEventBits bits).post popNoOp, .active)
  | .notifyExit => .ok ((p.addEventBits esqEventBitExit).post popNoOp, .active)
  | .executeCb => .ok (p.leftActiveList.returnValue esqOk, .executeCb)
  | _ => .error .invalidActionType

def wake (p : PtRun) (bits : Nat) : PtRun × McoLabel :=
  ((p.addEventBits bits).leftTimingList.joinActiveList.post popNoOp, .active)

def windedUp (p : PtRun) : Action → Except Fault (PtRun × McoLabel)
  | .notifyEvent bits => .ok (wake p bits)
  | .notifyExit => .ok (wake p esqEventBitExit)
  | .notifyTimeout => .ok (wake p esqEventBitTimeout)
  | _ => .error .invalidActionType

def resumeStored (p : PtRun) : PtRun :=
  (p.set fun s => { s with eventBits := s.eventBits2, eventBits2 := 0 }).joinActiveList

/--
`__execute_cb`

`ACTION_ADD_SOCK_FD_SINGLE` は timeout も、待つ event も写さない。poll には
`session->exp_event_bits` が渡る。
-/
def executeCb (p : PtRun) (os : Int) (isEnd : Bool) : Action → Except Fault (PtRun × McoLabel)
  | .windUp =>
    if isEnd then .ok (p.post popFreeSession, .executeCb)
    else if p.session.eventBits2 ≠ 0 then .ok (resumeStored p, .active)
    else .error .invalidActionType
  | .addSockFdSingle params =>
    if fdNeedInstall params.fd then
      if os ≠ 0 then .ok (p.returnValue os, .executeCb)
      else
        .ok (((p.emit (.addSocketFd params.fd p.session.expEventBits)).set
          fun s => { s with fd := params.fd }).joinTimingList.returnValue esqOk,
          .executeCbInstalledSocketFd)
    else
      .ok ((p.set fun s => { s with fd := params.fd }).joinTimingList.returnValue esqOk,
        .executeCbInstalledSocketFd)
  | .notifyExit => .ok ((p.addEventBits2 esqEventBitExit).post popNoOp, .executeCb)
  | .notifyEvent bits => .ok ((p.addEventBits2 bits).post popNoOp, .executeCb)
  | _ => .error .invalidActionType

/-- `__execute_cb_installed_socket_fd` で event を溜める三つの枝。timing list から抜ける。 -/
def store (p : PtRun) (bits : Nat) : PtRun × McoLabel :=
  ((p.addEventBits2 bits).leftTimingList.post popNoOp, .executeCbInstalledSocketFd)

/-- 仕掛けた poll の取り消し。戻り値は見ない。 -/
def removeSocketFd (p : PtRun) (os : Int) : PtRun :=
  if fdNeedInstall p.session.fd ∧ os = 0 then p.emit .removeSocketFd else p

def executeCbInstalledSocketFd (p : PtRun) (os : Int) (isEnd : Bool) :
    Action → Except Fault (PtRun × McoLabel)
  | .windUp =>
    if isEnd then .error .invalidActionType
    else if p.session.eventBits2 ≠ 0 then .ok ((resumeStored p).post popNoOp, .active)
    else .ok (p.post popNoOp, .windedUp)
  | .removeFd =>
    .ok (((removeSocketFd p os).leftTimingList.post popNoOp).set fun s => { s with fd := 0 },
      .executeCb)
  | .notifyExit => .ok (store p esqEventBitExit)
  | .notifyEvent bits => .ok (store p bits)
  | .notifyTimeout => .ok (store p esqEventBitTimeout)
  | _ => .error .invalidActionType

end McoPt

def esqPtOfMco (s : Session) (lc : McoLabel) (action : Action) (os : Int) (isEnd : Bool) :
    Except Fault (PtRun × McoLabel) :=
  let p : PtRun := { session := s }
  match lc with
  | .start => .ok (McoPt.start p)
  | .active => McoPt.active p action
  | .windedUp => McoPt.windedUp p action
  | .executeCb => McoPt.executeCb p os isEnd action
  | .executeCbInstalledSocketFd => McoPt.executeCbInstalledSocketFd p os isEnd action

end Esq
