import Esq.Session.HashLock
import Esq.Session.Membership

/-!
# hash lock を待つ状態機械

`session/pt_of_hash_lock.c`。session は `esq_try_fetch_hash_lock` でロックを求め、取れなければ
timeout の list に入って `__winded_up` で待つ。取れたとき、待たないとき、待つのを
やめたときは active list に入って `__active` になり、callback が呼ばれる。

状態の label と list の出入りは別々の文で書き換えられる。`__winded_up` の
`ACTION_NOTIFY_TIMEOUT` と `ACTION_NOTIFY_EXIT` の枝は label だけを `__active` にして、
list には触れない。

`esq_try_fetch_hash_lock` の戻り値は `fetch` で受ける。ロックが空いて起こされる session は、
new list の session と同じ `ACTION_PICK_UP` を受ける。
-/

namespace Esq

open Infra

/-! ## データ -/

inductive HashLockLabel where
  | start
  | initial
  | waitForCpu
  | windedUp
  | active
  | executeCb
  | die
deriving DecidableEq, Repr

/-- hash lock の状態機械だけが使う session の欄。 -/
structure HashWait where
  lc : HashLockLabel := .start
  hashLockIdx : Int := 0
  hashLockState : HashLockState := .read
deriving DecidableEq, Repr

/-- `ACTION_HASH_LOCK_READ` と `ACTION_HASH_LOCK_WRITE` が渡す欄。 -/
structure HashLockParams where
  fd : Int := 0
  timeouts : Int := 0
  timeoutms : Int := 0
  cb : Nat := 0
  userParam : Nat := 0
  hashLockIdx : Int := 0
deriving DecidableEq, Repr

/-! ## 状態機械 -/

namespace HashLockPt

def tryFetchHashLock (p : PtRun) (fetch : Int) : PtRun × HashLockLabel :=
  if fetch = esqErrorBusy then
    if p.session.timeouts > 0 then (p.joinTimingList.post popNoOp, .windedUp)
    else ((p.addEventBits esqEventBitTimeout).joinActiveList.post popNoOp, .active)
  else if fetch = esqOk then
    ((p.addEventBits esqEventBitLockObtain).joinActiveList.post popNoOp, .active)
  else ((p.addEventBits esqEventBitError).joinActiveList.post popNoOp, .active)

def initial (p : PtRun) : Action → Except Fault (PtRun × HashLockLabel)
  | .windUp => .ok (p.post popJoinLocalNewList, .waitForCpu)
  | .windUpRr => .ok (p.post popJoinGlobalNewList, .waitForCpu)
  | .setParent parent cb =>
    if p.session.haveParentSession then .error .invalidActionType
    else
      .ok ((p.set fun s => { s with
        haveParentSession := true
        sessionDoneCb := cb
        parentSession := some parent }).post popNoOp, .initial)
  | _ => .error .invalidActionType

def waitForCpu (p : PtRun) (fetch : Int) : Action → Except Fault (PtRun × HashLockLabel)
  | .pickUp => .ok (tryFetchHashLock p fetch)
  | _ => .error .invalidActionType

/--
`__winded_up`

timeout と exit の枝は timing list から抜けず、active list にも入らない。
-/
def windedUp (p : PtRun) : Action → Except Fault (PtRun × HashLockLabel)
  | .notifyEvent bits =>
    .ok ((p.addEventBits bits).leftTimingList.joinActiveList.post popNoOp, .active)
  | .notifyTimeout => .ok ((p.addEventBits esqEventBitTimeout).post popNoOp, .active)
  | .notifyExit => .ok ((p.addEventBits esqEventBitExit).post popNoOp, .active)
  | _ => .error .invalidActionType

def active (p : PtRun) : Action → Except Fault (PtRun × HashLockLabel)
  | .notifyEvent bits => .ok ((p.addEventBits bits).post popNoOp, .active)
  | .notifyExit => .ok ((p.addEventBits esqEventBitExit).post popNoOp, .active)
  | .executeCb => .ok (p.leftActiveList.returnValue esqOk, .executeCb)
  | _ => .error .invalidActionType

/--
`__execute_cb`

`ACTION_HASH_LOCK_READ` の枝は `post_op` に session type の値 5 を書く。
5 は `POP_FREE_SESSION | POP_RETURN_VALUE` にあたる。
-/
def executeCb (p : PtRun) : Action → Except Fault (PtRun × HashLockLabel)
  | .windUp => .ok (p.post popFreeSession, .die)
  | .addSockFdMulti _ =>
    .ok ((p.post popSwitchSessionType).set fun s => { s with sessionType := .multiSocketCb },
      .executeCb)
  | .addChild child =>
    .ok ((p.set fun s => { s with childSessionList := child :: s.childSessionList }).post popNoOp,
      .executeCb)
  | .addSockFdSingle _ =>
    .ok ((p.set fun s => { s with sessionType := .socketCb }).post popSwitchSessionType, .executeCb)
  | .notifyExit => .ok ((p.addEventBits esqEventBitExit).post popNoOp, .executeCb)
  | .notifyEvent bits => .ok ((p.addEventBits bits).post popNoOp, .executeCb)
  | .hashLockWrite =>
    .ok ((p.set fun s => { s with sessionType := .waitForHashLock }).post popSwitchSessionType,
      .executeCb)
  | .hashLockRead =>
    .ok ((p.set fun s => { s with sessionType := .waitForHashLock }).post 5, .executeCb)
  | _ => .error .invalidActionType

/-- protothread の先頭。欄を写して `__initial` で止まる。 -/
def start (p : PtRun) (params : HashLockParams) : PtRun × HashLockLabel :=
  ((p.set fun s => { s with
    fd := params.fd
    timeouts := params.timeouts
    timeoutms := params.timeoutms
    userParam := params.userParam
    cb := params.cb
    eventBits := 0 }).post popNoOp, .initial)

end HashLockPt

def toShort (v : Int) : Int := v.bmod (2 ^ 16)

/-- `session->hash_lock_idx` と `session->hash_lock_state` を写す。 -/
def HashWait.begin (action : Action) (params : HashLockParams) : HashWait where
  lc := .initial
  hashLockIdx := toShort params.hashLockIdx
  hashLockState := if action = .hashLockRead then .read else .write

def esqPtOfHashLock (s : Session) (h : HashWait) (action : Action) (params : HashLockParams)
    (fetch : Int) : Except Fault (PtRun × HashWait) :=
  let p : PtRun := { session := s }
  let stop (r : Except Fault (PtRun × HashLockLabel)) : Except Fault (PtRun × HashWait) :=
    r.map fun q => (q.1, { h with lc := q.2 })
  match h.lc with
  | .start => .ok ((HashLockPt.start p params).1, HashWait.begin action params)
  | .initial => stop (HashLockPt.initial p action)
  | .waitForCpu => stop (HashLockPt.waitForCpu p fetch action)
  | .windedUp => stop (HashLockPt.windedUp p action)
  | .active => stop (HashLockPt.active p action)
  | .executeCb => stop (HashLockPt.executeCb p action)
  | .die => .error .invalidActionType

/-! ## worker -/

structure HashWorker where
  worker : Worker
  wait : Nat → HashWait

def HashWorker.init : HashWorker where
  worker := Worker.init
  wait _ := {}

/-- session に渡す action と、その間の OS と hash lock の結果。 -/
structure HashAction where
  action : Action
  params : HashLockParams := {}
  os : Int := 0
  fetch : Int := 0
deriving DecidableEq, Repr

namespace HashWorker

def session (hw : HashWorker) (x : Nat) : Session := hw.worker.session x

def dispatch (hw : HashWorker) (x : Nat) (a : HashAction) : Except Fault HashWorker :=
  if (hw.session x).sessionType = .waitForHashLock then do
    let (p, h) ← esqPtOfHashLock (hw.session x).ready (hw.wait x) a.action a.params a.fetch
    .ok {
      worker := (hw.worker.setSession x p.session).execEffects x p.effects
      wait := Function.update hw.wait x h }
  else do
    let w ← hw.worker.dispatch x a.action a.os
    .ok { hw with worker := w }

def restart (hw : HashWorker) (x : Nat) : HashWorker where
  worker := hw.worker.setSession x { hw.session x with lc := .start }
  wait := Function.update hw.wait x { hw.wait x with lc := .start }

def postActions (hw : HashWorker) (x : Nat) (os : Int) : Except Fault (Int × HashWorker) := do
  let (r, w) ← hw.worker.postActions x os
  .ok (r, { hw with worker := w })

def takeAction (hw : HashWorker) (x : Nat) (a : HashAction) : Except Fault (Int × HashWorker) :=
  if (hw.session x).magic then do
    let hw' ← hw.dispatch x a
    if wantsSwitch (hw'.session x).postOp then do
      let hw'' ← (hw'.restart x).dispatch x a
      hw''.postActions x a.os
    else hw'.postActions x a.os
  else .ok (esqErrorParam, hw)

end HashWorker

/-! ## 操作の列 -/

inductive ForeignOp where
  | list (e : Effect)
  | joinNew (k : NewList)
  /-- callback の中から `esq_hash_lock_read` か `esq_hash_lock_write` を呼んで移ってくる -/
  | request (state : HashLockState) (params : HashLockParams)
  | free
deriving DecidableEq, Repr

inductive HashOp where
  /-- `esq_session_new` が番地 `x` を返す -/
  | new (x : Nat)
  /-- `esq_hash_lock_read` と `esq_hash_lock_write` -/
  | request (x : Nat) (state : HashLockState) (params : HashLockParams)
  /-- `esq_session_set_socket_fd` と `esq_session_set_socket_fd_multi` -/
  | socket (x : Nat) (multi : Bool) (params : FdParams)
  /-- `esq_session_wind_up` -/
  | windUp (x : Nat)
  /-- `esq_session_wind_up_rr` -/
  | windUpRr (x : Nat)
  /-- new list の先頭を取って `ACTION_PICK_UP` を渡す -/
  | pickUp (k : NewList) (fetch : Int)
  /-- wake-up list から取った要求の session に `ACTION_PICK_UP` を渡す -/
  | wakeUp (x : Nat) (serverStopFlag : Bool)
  /-- `esq_notify_event_to_session` -/
  | notifyEvent (x : Nat) (bits : Nat)
  /-- `CHECK_EVENTS_TIMING2` が `x` の時間切れを見つける -/
  | timeout (x : Nat)
  /-- `NOTIFY_EXIT_TO_SESSION_LIST` が `x` に着く -/
  | exit (x : Nat)
  /-- `esq_session_pop_the_first_active` が `x` を選ぶ -/
  | execute (x : Nat)
  /-- 他の状態機械の session の操作 -/
  | foreign (x : Nat) (op : ForeignOp)
deriving DecidableEq, Repr

def HashLockState.action : HashLockState → Action
  | .read => .hashLockRead
  | .write => .hashLockWrite

def HashOp.delivery : HashOp → Option (Nat × HashAction)
  | .request x state params => some (x, { action := state.action, params })
  | .socket x true params => some (x, { action := .addSockFdMulti params })
  | .socket x false params => some (x, { action := .addSockFdSingle params })
  | .windUp x => some (x, { action := .windUp })
  | .windUpRr x => some (x, { action := .windUpRr })
  | .notifyEvent x bits => some (x, { action := .notifyEvent bits })
  | .timeout x => some (x, { action := .notifyTimeout })
  | .exit x => some (x, { action := .notifyExit })
  | .execute x => some (x, { action := .executeCb })
  | _ => none

namespace HashWorker

def waiting (hw : HashWorker) (x : Nat) : Bool :=
  (hw.session x).magic && (hw.session x).sessionType = .waitForHashLock

def foreign (hw : HashWorker) (x : Nat) : Bool :=
  (hw.session x).magic && (hw.session x).sessionType ≠ .waitForHashLock
    && (hw.session x).sessionType ≠ .new

def act (hw : HashWorker) (x : Nat) (a : HashAction) : Except Fault HashWorker := do
  let (_, hw') ← hw.takeAction x a
  .ok hw'

/-- `esq_worker_pick_up_from_local_wake_up_list` が `session->event_bits` に書く。 -/
def markWoken (hw : HashWorker) (x : Nat) (serverStopFlag : Bool) : HashWorker :=
  let bit := if serverStopFlag then esqEventBitExit else esqEventBitLockObtain
  let s := hw.session x
  { hw with worker := hw.worker.setSession x { s with eventBits := orBits s.eventBits bit } }

def foreignStep (hw : HashWorker) (x : Nat) : ForeignOp → HashWorker
  | .list e => { hw with worker := hw.worker.execEffect x e }
  | .joinNew k => { hw with worker := hw.worker.joinNewList k x }
  | .request state params =>
    let s : Session := { hw.session x with sessionType := .waitForHashLock, lc := .start }
    { worker := hw.worker.setSession x (HashLockPt.start { session := s.ready } params).1.session
      wait := Function.update hw.wait x (HashWait.begin state.action params) }
  | .free => { hw with worker := hw.worker.setSession x { hw.session x with magic := false } }

end HashWorker

def hashStep (hw : HashWorker) (op : HashOp) : Except Fault HashWorker :=
  match op with
  | .new x => .ok { hw with worker := hw.worker.setSession x esqSessionNew }
  | .pickUp k fetch =>
    match hw.worker.popNewList k with
    | none => .ok hw
    | some (x, w) =>
      -- 他の状態機械の session は、取られた後をその状態機械に任せる
      if hw.waiting x then ({ hw with worker := w } : HashWorker).act x { action := .pickUp, fetch }
      else .ok { hw with worker := w }
  | .wakeUp x serverStopFlag => (hw.markWoken x serverStopFlag).act x { action := .pickUp }
  | .foreign x op => .ok (hw.foreignStep x op)
  | op =>
    match op.delivery with
    | some (x, a) => hw.act x a
    | none => .ok hw

end Esq
