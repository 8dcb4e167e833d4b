import Esq.Session.Basic

/-!
# socket の状態機械

`session/pt_of_socket.c` と `session/pt_of_multi_shot_socket.c`。
`os` は `esq_os_events_*` の戻り値である。`INVALID_ACTION_TYPE` の枝は `exit(1)` で終わる。

label ごとに、受け付ける action を C の `if` の並びの順に書く。
-/

namespace Esq

/-! ## single shot -/

namespace SingleShot

def installFd (p : PtRun) (os : Int) : PtRun :=
  if fdNeedInstall p.session.fd then
    if os ≠ 0 then
      ((p.addEventBits esqEventBitError).joinActiveList.post popNoOp).goto (.single .active)
    else
      ((p.emit (.addSocketFd p.session.fd p.session.expEventBits)).joinTimingList.post
        popNoOp).goto (.single .windedUp)
  else (p.joinTimingList.post popNoOp).goto (.single .windedUp)

def removeFdThenActive (p : PtRun) (os : Int) : PtRun :=
  if fdNeedInstall p.session.fd then
    let p := p.set fun s => { s with fd := 0 }
    if os ≠ 0 then
      (p.addEventBits esqEventBitError).leftTimingList.joinActiveList.goto (.single .active)
    else
      (p.emit .removeSocketFd).changeToNoTimingList.goto (.single .waitForRemovedThenActive)
  else p.leftTimingList.joinActiveList.goto (.single .active)

def initial (p : PtRun) : Action → Except Fault PtRun
  | .windUp => .ok ((p.post popJoinLocalNewList).goto (.single .waitForCpu))
  | .windUpRr => .ok ((p.post popJoinGlobalNewList).goto (.single .waitForCpu))
  | .setParent parent cb =>
    if p.session.haveParentSession then .error .invalidActionType
    else
      .ok (((p.set fun s => { s with
        haveParentSession := true
        sessionDoneCb := cb
        parentSession := some parent }).post popNoOp).goto (.single .initial))
  | _ => .error .invalidActionType

def waitForCpu (p : PtRun) (os : Int) : Action → Except Fault PtRun
  | .pickUp => .ok (installFd p os)
  | _ => .error .invalidActionType

def windedUp (p : PtRun) (os : Int) : Action → Except Fault PtRun
  | .notifyEvent bits =>
    .ok (((p.addEventBits bits).leftTimingList.joinActiveList.post popNoOp).goto (.single .active))
  | .notifyTimeout =>
    .ok (removeFdThenActive ((p.addEventBits esqEventBitTimeout).post popNoOp) os)
  | .notifyExit =>
    .ok (removeFdThenActive ((p.addEventBits esqEventBitExit).post popNoOp) os)
  | _ => .error .invalidActionType

def waitForRemovedThenActive (p : PtRun) : Action → Except Fault PtRun
  | .notifyAioRemoved =>
    .ok ((p.leftTimingList.joinActiveList.post popNoOp).goto (.single .active))
  | .notifyExit =>
    .ok (((p.addEventBits esqEventBitExit).post popNoOp).goto (.single .waitForRemovedThenActive))
  | _ => .error .invalidActionType

def active (p : PtRun) : Action → Except Fault PtRun
  | .notifyEvent bits => .ok ((p.addEventBits bits).post popNoOp)
  | .notifyExit => .ok (((p.addEventBits esqEventBitExit).post popNoOp).goto (.single .active))
  | .executeCb => .ok ((p.leftActiveList.returnValue esqOk).goto (.single .executeCb))
  | _ => .error .invalidActionType

def setParams (p : PtRun) (params : FdParams) : PtRun :=
  p.set fun s => { s with
    fd := params.fd
    timeouts := params.timeouts
    timeoutms := params.timeoutms
    userParam := params.userParam
    expEventBits := params.expEventBits
    cb := params.cb }

/--
`__execute_cb`

`ACTION_HASH_LOCK_READ` の枝は `post_op` に session type の値 5 を書く。
5 は `POP_FREE_SESSION | POP_RETURN_VALUE` にあたる。
-/
def executeCb (p : PtRun) : Action → Except Fault PtRun
  | .windUp => .ok ((p.post popFreeSession).goto (.single .die))
  | .addSockFdMulti _ =>
    .ok ((p.post popSwitchSessionType).set fun s => { s with sessionType := .multiSocketCb })
  | .addChild child =>
    .ok (((p.set fun s => { s with childSessionList := child :: s.childSessionList }).post
      popNoOp).goto (.single .executeCb))
  | .addSockFdSingle params =>
    .ok (((setParams p params).post popNoOp).goto (.single .waitForReinstall))
  | .notifyExit => .ok (((p.addEventBits esqEventBitExit).post popNoOp).goto (.single .executeCb))
  | .notifyEvent bits => .ok (((p.addEventBits bits).post popNoOp).goto (.single .executeCb))
  | .hashLockWrite =>
    .ok ((p.set fun s => { s with sessionType := .waitForHashLock }).post popSwitchSessionType)
  | .hashLockRead => .ok ((p.set fun s => { s with sessionType := .waitForHashLock }).post 5)
  | _ => .error .invalidActionType

def waitForReinstall (p : PtRun) (os : Int) : Action → Except Fault PtRun
  | .windUp => .ok (installFd p os)
  | .notifyExit =>
    .ok (((p.addEventBits esqEventBitExit).post popNoOp).goto (.single .waitForReinstall))
  | .notifyEvent bits =>
    .ok (((p.addEventBits bits).post popNoOp).goto (.single .waitForReinstall))
  | _ => .error .invalidActionType

/-- protothread の先頭。欄を写して `__initial` で止まる。 -/
def start (p : PtRun) (action : Action) : PtRun :=
  (((setParams p action.params).set fun s => { s with eventBits := 0 }).post popNoOp).goto
    (.single .initial)

end SingleShot

def esqPtOfSingleShotSocket (s : Session) (action : Action) (os : Int) : Except Fault PtRun :=
  let p : PtRun := { session := s }
  match s.lc with
  | .start => .ok (SingleShot.start p action)
  | .single .initial => SingleShot.initial p action
  | .single .waitForCpu => SingleShot.waitForCpu p os action
  | .single .windedUp => SingleShot.windedUp p os action
  | .single .waitForRemovedThenActive => SingleShot.waitForRemovedThenActive p action
  | .single .active => SingleShot.active p action
  | .single .executeCb => SingleShot.executeCb p action
  | .single .waitForReinstall => SingleShot.waitForReinstall p os action
  | .single .die => .error .invalidActionType
  | .multi _ => .ok p

/-! ## multi shot -/

namespace MultiShot

def installFd (p : PtRun) (os : Int) : PtRun :=
  if fdNeedInstall p.session.fd then
    if os ≠ 0 then
      ((p.addEventBits esqEventBitError).joinActiveList.post popNoOp).goto (.multi .active)
    else
      ((p.emit (.addSocketFdMultishot p.session.fd p.session.expEventBits)).joinTimingList.post
        popNoOp).goto (.multi .windedUp)
  else (p.joinTimingList.post popNoOp).goto (.multi .windedUp)

def initial (p : PtRun) : Action → Except Fault PtRun
  | .windUp => .ok ((p.post popJoinLocalNewList).goto (.multi .waitForCpu))
  | .windUpRr => .ok ((p.post popJoinGlobalNewList).goto (.multi .waitForCpu))
  | _ => .error .invalidActionType

def waitForCpu (p : PtRun) (os : Int) : Action → Except Fault PtRun
  | .pickUp => .ok (installFd p os)
  | _ => .error .invalidActionType

def windedUp (p : PtRun) : Action → Except Fault PtRun
  | .notifyEvent bits =>
    .ok (((p.addEventBits bits).leftTimingList.joinActiveList.post popNoOp).goto (.multi .active))
  | .notifyExit =>
    .ok ((p.addEventBits esqEventBitExit).leftTimingList.joinActiveList.goto (.multi .active))
  | _ => .error .invalidActionType

def active (p : PtRun) : Action → Except Fault PtRun
  | .notifyEvent bits => .ok (((p.addEventBits bits).post popNoOp).goto (.multi .active))
  | .notifyExit => .ok (((p.addEventBits esqEventBitExit).post popNoOp).goto (.multi .active))
  | .executeCb =>
    .ok (((p.leftActiveList.returnValue esqOk).set fun s => { s with eventBits2 := 0 }).goto
      (.multi .executeCb))
  | _ => .error .invalidActionType

def executeCb (p : PtRun) (os : Int) : Action → Except Fault PtRun
  | .windUp =>
    if p.session.fd ≠ 0 then
      if p.session.eventBits2 ≠ 0 then
        .ok ((p.set fun s => { s with eventBits := s.eventBits2 }).joinActiveList.goto
          (.multi .active))
      else .ok ((p.joinTimingList.post popNoOp).goto (.multi .windedUp))
    else .ok (p.post popFreeSession)
  | .removeFd =>
    if fdNeedInstall p.session.fd then
      let p := p.set fun s => { s with fd := 0 }
      if os ≠ 0 then .ok ((p.addEventBits2 esqEventBitError).goto (.multi .executeCb))
      else
        .ok ((p.emit .removeSocketFd).joinTimingList.goto (.multi .waitForRemovedAndWindUp))
    else .ok (((p.post popNoOp).set fun s => { s with fd := 0 }).goto (.multi .executeCb))
  | .notifyEvent bits => .ok (((p.addEventBits2 bits).post popNoOp).goto (.multi .executeCb))
  | .notifyExit => .ok (((p.addEventBits2 esqEventBitExit).post popNoOp).goto (.multi .executeCb))
  | _ => .error .invalidActionType

def waitForRemovedAndWindUp (p : PtRun) : Action → Except Fault PtRun
  | .notifyAioRemoved => .ok ((p.post popNoOp).goto (.multi .waitForWindUp))
  | .windUp => .ok ((p.post popNoOp).goto (.multi .waitForRemoved))
  | _ => .error .invalidActionType

def waitForRemoved (p : PtRun) : Action → Except Fault PtRun
  | .notifyAioRemoved => .ok ((p.leftTimingList.post popFreeSession).goto (.multi .die))
  | .notifyExit => .ok ((p.post popNoOp).goto (.multi .waitForRemoved))
  | _ => .error .invalidActionType

def waitForWindUp (p : PtRun) : Action → Except Fault PtRun
  | .windUp => .ok ((p.leftTimingList.post popFreeSession).goto (.multi .die))
  | .notifyExit => .ok ((p.post popNoOp).goto (.multi .waitForWindUp))
  | _ => .error .invalidActionType

/-- protothread の先頭。timeout は使わないので 0 にする。 -/
def start (p : PtRun) (action : Action) : PtRun :=
  ((p.set fun s => { s with
    fd := action.params.fd
    timeouts := 0
    timeoutms := 0
    userParam := action.params.userParam
    expEventBits := action.params.expEventBits
    cb := action.params.cb
    eventBits := 0 }).post popNoOp).goto (.multi .initial)

end MultiShot

def esqPtOfMultiShotSocket (s : Session) (action : Action) (os : Int) : Except Fault PtRun :=
  let p : PtRun := { session := s }
  match s.lc with
  | .start => .ok (MultiShot.start p action)
  | .multi .initial => MultiShot.initial p action
  | .multi .waitForCpu => MultiShot.waitForCpu p os action
  | .multi .windedUp => MultiShot.windedUp p action
  | .multi .active => MultiShot.active p action
  | .multi .executeCb => MultiShot.executeCb p os action
  | .multi .waitForRemovedAndWindUp => MultiShot.waitForRemovedAndWindUp p action
  | .multi .waitForRemoved => MultiShot.waitForRemoved p action
  | .multi .waitForWindUp => MultiShot.waitForWindUp p action
  | .multi .die => .error .invalidActionType
  | .single _ => .ok p

end Esq
