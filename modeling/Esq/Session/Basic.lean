import Esq.Basic
import Esq.Infra.Dll
import Mathlib.Data.Nat.Bitwise

/-!
# session

`session/internal.h` と `session/timing.c`。session は protothread で書かれた状態機械で、
`lc`（前回止まった行）から再開する。モデルの `lc` は行番号の代わりに label の名前を持つ。

状態機械の一歩は worker の list を直接書き換えるが、ここでは書き換えを `Effect` の列として
取り出し、`Esq.Session.Worker` で worker に当てる。どの list に対する操作かは、
その時点の session の欄から C と同じように計算する。
-/

namespace Esq

open Infra

/-! ## event bit -/

def esqEventBitFdClose : Nat := 0x01
def esqEventBitError : Nat := 0x02
def esqEventBitTimeout : Nat := 0x04
def esqEventBitRead : Nat := 0x08
def esqEventBitWrite : Nat := 0x10
def esqEventBitLockObtain : Nat := 0x20
def esqEventBitTaskDone : Nat := 0x40
def esqEventBitExit : Nat := 0x80

def orBits (a b : Nat) : Nat := (a ||| b) % 2 ^ 16

/-! ## label -/

inductive SessionType where
  | new
  | socketCb
  | multiSocketCb
  | mco
  | noFd
  | waitForHashLock
deriving DecidableEq, Repr

inductive SingleShotLabel where
  | initial
  | waitForCpu
  | windedUp
  | waitForRemovedThenActive
  | active
  | executeCb
  | waitForReinstall
  | die
deriving DecidableEq, Repr

inductive MultiShotLabel where
  | initial
  | waitForCpu
  | windedUp
  | active
  | executeCb
  | waitForRemovedAndWindUp
  | waitForRemoved
  | waitForWindUp
  | die
deriving DecidableEq, Repr

/-- `session->lc`。`start` は 0 で、protothread の先頭を表す。 -/
inductive Lc where
  | start
  | single (l : SingleShotLabel)
  | multi (l : MultiShotLabel)
deriving DecidableEq, Repr

/-! ## action -/

structure FdParams where
  fd : Int := 0
  expEventBits : Nat := 0
  timeouts : Int := 0
  timeoutms : Int := 0
  cb : Nat := 0
  userParam : Nat := 0
deriving DecidableEq, Repr

inductive Action where
  | no
  | windUp
  | windUpRr
  | pickUp
  | setParent (parent : Nat) (cb : Nat)
  | addChild (child : Nat)
  | addSockFdMulti (params : FdParams)
  | addSockFdSingle (params : FdParams)
  | mcoServiceFinish
  | removeFd
  | notifyEvent (bits : Nat)
  | notifyAioRemoved
  | notifyTimeout
  | notifyExit
  | executeCb
  | hashLockRead
  | hashLockWrite
deriving DecidableEq, Repr

/-- action の fd の欄。fd を渡さない action では埋められていない。 -/
def Action.params : Action → FdParams
  | .addSockFdMulti params => params
  | .addSockFdSingle params => params
  | _ => {}

/-! ## post op -/

def popNoOp : Nat := 0
def popFreeSession : Nat := 0x01
def popSwitchSessionType : Nat := 0x02
def popReturnValue : Nat := 0x04
def popJoinGlobalNewList : Nat := 0x08
def popJoinLocalNewList : Nat := 0x10

def hasBit (postOp bit : Nat) : Bool := postOp &&& bit ≠ 0

/-! ## session の欄 -/

/--
`esq_session_t`

`magic` は `magic0` と `magic1` が正しいこと、すなわち解放されていないことを表す。
wind-up の時刻と mco と hash lock の欄は、socket の状態機械が読まないので持たない。
-/
structure Session where
  magic : Bool := false
  sessionType : SessionType := .new
  lc : Lc := .start
  postOp : Nat := popNoOp
  r : Int := 0
  fd : Int := 0
  timeouts : Int := 0
  timeoutms : Int := 0
  expEventBits : Nat := 0
  eventBits : Nat := 0
  eventBits2 : Nat := 0
  cb : Nat := 0
  userParam : Nat := 0
  haveParentSession : Bool := false
  parentSession : Option Nat := none
  sessionDoneCb : Nat := 0
  childSessionList : List Nat := []
  finishedChildSessionList : List Nat := []
deriving DecidableEq, Repr

def esqSessionNew : Session := { magic := true, sessionType := .new }

def fdNeedInstall (fd : Int) : Prop := fd > 0

instance (fd : Int) : Decidable (fdNeedInstall fd) := inferInstanceAs (Decidable (fd > 0))

/-! ## worker の list -/

inductive WorkerList where
  | active
  | of0msTo100ms
  | of100msTo1s
  | of1sTo10s
  | ofLongerThan10s
  | ofNoTime
deriving DecidableEq, Repr

/-- `esq_session_join_timing_list` と `esq_session_left_timing_list` が選ぶ list。 -/
def timingList (s ms : Int) : WorkerList :=
  if s ≥ 10 then .ofLongerThan10s
  else if s ≥ 1 then .of1sTo10s
  else if ms ≥ 100 then .of100msTo1s
  else if ms > 0 then .of0msTo100ms
  else .ofNoTime

def Session.timingList (s : Session) : WorkerList := Esq.timingList s.timeouts s.timeoutms

/-- 状態機械が worker と io_uring に対して行うこと。 -/
inductive Effect where
  /-- `DOUBLE_LL_JOIN_HEAD` -/
  | joinHead (l : WorkerList)
  /-- `DOUBLE_LL_JOIN_TAIL` -/
  | joinTail (l : WorkerList)
  /-- `DOUBLE_LL_LEFT` -/
  | left (l : WorkerList)
  /-- `esq_os_events_add_socket_fd` が poll を仕掛けた -/
  | addSocketFd (fd : Int) (expEventBits : Nat)
  /-- `esq_os_events_add_socket_fd_multishot` が poll を仕掛けた -/
  | addSocketFdMultishot (fd : Int) (expEventBits : Nat)
  /-- `esq_os_events_remove_socket_fd` が poll の取り消しを出した -/
  | removeSocketFd
deriving DecidableEq, Repr

/-! ## 状態機械の一歩 -/

/-- 一歩の途中の session と、これまでに出した操作。 -/
structure PtRun where
  session : Session
  effects : List Effect := []
deriving DecidableEq, Repr

namespace PtRun

@[simp] def emit (p : PtRun) (e : Effect) : PtRun := { p with effects := p.effects ++ [e] }

@[simp] def set (p : PtRun) (f : Session → Session) : PtRun := { p with session := f p.session }

@[simp] def post (p : PtRun) (op : Nat) : PtRun := p.set fun s => { s with postOp := op }

@[simp] def returnValue (p : PtRun) (r : Int) : PtRun :=
  p.set fun s => { s with postOp := popReturnValue, r := r }

@[simp] def addEventBits (p : PtRun) (bits : Nat) : PtRun :=
  p.set fun s => { s with eventBits := orBits s.eventBits bits }

@[simp] def addEventBits2 (p : PtRun) (bits : Nat) : PtRun :=
  p.set fun s => { s with eventBits2 := orBits s.eventBits2 bits }

/-- `GOTO(label)`。行き先の `ESQ_SESSION_PT_SET` で止まる。 -/
@[simp] def goto (p : PtRun) (lc : Lc) : PtRun := p.set fun s => { s with lc := lc }

@[simp] def joinActiveList (p : PtRun) : PtRun := p.emit (.joinTail .active)

@[simp] def leftActiveList (p : PtRun) : PtRun := p.emit (.left .active)

@[simp] def joinTimingList (p : PtRun) : PtRun := p.emit (.joinHead p.session.timingList)

@[simp] def leftTimingList (p : PtRun) : PtRun := p.emit (.left p.session.timingList)

def changeToNoTimingList (p : PtRun) : PtRun :=
  if p.session.timeouts ≠ 0 ∨ p.session.timeoutms ≠ 0 then
    (p.leftTimingList.set fun s => { s with timeouts := 0, timeoutms := 0 }).joinTimingList
  else p

end PtRun

def esqPtOfNoFd (s : Session) (action : Action) : Except Fault PtRun :=
  let p : PtRun := { session := s }
  match action with
  | .windUp => .ok (p.post popFreeSession)
  | .addSockFdMulti _ =>
    .ok ((p.set fun s => { s with sessionType := .multiSocketCb }).post popSwitchSessionType)
  | .addSockFdSingle _ =>
    .ok ((p.set fun s => { s with sessionType := .socketCb }).post popSwitchSessionType)
  | .hashLockRead =>
    .ok ((p.set fun s => { s with sessionType := .waitForHashLock }).post popSwitchSessionType)
  | .hashLockWrite =>
    .ok ((p.set fun s => { s with sessionType := .waitForHashLock }).post popSwitchSessionType)
  | _ => .error .invalidActionType

end Esq
