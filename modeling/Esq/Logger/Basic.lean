import Mathlib.Logic.Function.Basic
import Esq.Basic
import Esq.Infra.Run
import Esq.Infra.RingWindow
import Esq.Libs.Memory

/-!
# logger

`src/logger.c`。四つの buffer を、`esq_log` の呼び手（何人でもよい）と、一つの worker thread が分けあう。

呼び手は buffer に書き足し、埋まれば隣の空いた buffer に移る。worker は buffer を一つずつ file に書き戻す。
lock を取ってから放すまでを、ひとつの step とする。lock の外で起きることは、それぞれ別の step である。
放した後の `sem_post` だけは、放した step に含める。早く起こしても、起こりうる順は減らない。

時計、`open`、`write` の結果は step ごとに与える。
-/

namespace Esq

open Infra

def logBufCnt : Nat := 4

def logBufSize : Nat := 4096

def ioErrorPauseGap : Int := 60 * 5

abbrev LogBufIdx := Fin logBufCnt

inductive LogBufState where
  | empty
  | use
  | full
deriving DecidableEq, Repr

structure LogBuf where
  bytes : List UInt8
  length_bytes : bytes.length = logBufSize

/-- 書式を当てた文字列。`none` は `vsnprintf` の失敗である。 -/
abbrev LogText := Option (List UInt8)

/--
buffer の `offset` から後ろに `vsnprintf` で書く。

入るだけ書いて NUL で閉じ、切り詰めなかったときの長さを返す。
-/
def LogBuf.vsnprintf (b : LogBuf) (offset : Fin logBufSize) : LogText → LogBuf × Int
  | none => (b, -1)
  | some text =>
    let put := text.take (logBufSize - offset - 1) ++ [0]
    ({ bytes := splice b.bytes offset put
       length_bytes := by
         have hb := b.length_bytes
         have ho := offset.isLt
         have hput : put.length ≤ logBufSize - offset := by
           rw [List.length_append, List.length_take, List.length_singleton]
           omega
         unfold splice
         rw [List.length_append, List.length_append, List.length_take, List.length_drop]
         omega }, text.length)

structure EsqLogger where
  /-- `esq_logger_buf` -/
  buf : LogBufIdx → LogBuf
  /-- `esq_logger_buf_offset` -/
  bufOffset : LogBufIdx → Fin logBufSize
  /-- `esq_logger_buf_state` -/
  bufState : LogBufIdx → LogBufState
  /-- `esq_logger_buf_user_idx` -/
  userIdx : LogBufIdx
  /-- `esq_logger_buf_worker_idx` -/
  workerIdx : LogBufIdx
  /-- `esq_logger_user_sem` -/
  userSem : Nat
  /-- `esq_logger_worker_sem` -/
  workerSem : Nat
  /-- `esq_logger_fd` -/
  fd : Int
  /-- `esq_logger_stop_flag` -/
  stopFlag : Bool
  /-- `esq_logger_change_filename_flag` -/
  changeFilenameFlag : Bool
  /-- `esq_logger_filename_idx` -/
  filenameIdx : Nat
  /-- `esq_logger_last_io_error_time` -/
  lastIoErrorTime : Int
  /-- `write()` が file に書いた byte を、呼び出しごとに古い順に並べたもの -/
  written : List (List UInt8)

def EsqLogger.content (l : EsqLogger) (i : LogBufIdx) : List UInt8 :=
  (l.buf i).bytes.take (l.bufOffset i)

def EsqLogger.init : EsqLogger where
  buf := fun _ => ⟨List.replicate logBufSize 0, List.length_replicate⟩
  bufOffset := fun _ => ⟨0, by decide⟩
  bufState := fun _ => .empty
  userIdx := ⟨0, by decide⟩
  workerIdx := ⟨0, by decide⟩
  userSem := 0
  workerSem := 0
  fd := -1
  stopFlag := false
  changeFilenameFlag := false
  filenameIdx := 0
  lastIoErrorTime := 0
  written := []

/-- その step の、時計と `open` と `write` の結果。`write` は、書けた長さか `-1` を返す。 -/
structure LoggerIo where
  time : Int
  fd : Int
  write : Nat → Int

/-! ## 呼び手 -/

def esqLoggerBufNextIdx (i : LogBufIdx) : LogBufIdx :=
  if h : i.val + 1 ≥ logBufCnt then ⟨0, by decide⟩ else ⟨i.val + 1, Nat.lt_of_not_le h⟩

inductive LogTurn where
  /-- 返る -/
  | ret (code : Int)
  /-- `sem_wait(&esq_logger_user_sem)` の後でやり直す -/
  | wait
  /-- すぐにやり直す -/
  | again
deriving DecidableEq, Repr

def EsqLogger.vsnprintf (l : EsqLogger) (text : LogText) : EsqLogger × Int :=
  let w := (l.buf l.userIdx).vsnprintf (l.bufOffset l.userIdx) text
  ({ l with buf := Function.update l.buf l.userIdx w.1 }, w.2)

def EsqLogger.setFull (l : EsqLogger) (i : LogBufIdx) : EsqLogger :=
  { l with bufState := Function.update l.bufState i .full }

def EsqLogger.accept (l : EsqLogger) (n : Nat)
    (h : (l.bufOffset l.userIdx).val + n < logBufSize) : EsqLogger :=
  { l with
    bufOffset := Function.update l.bufOffset l.userIdx ⟨l.bufOffset l.userIdx + n, h⟩
    workerSem := l.workerSem + 1
    userSem := l.userSem + 1 }

def esqLogFormat (l : EsqLogger) (text : LogText) : EsqLogger × LogTurn :=
  let r := (l.vsnprintf text).2
  let l := (l.vsnprintf text).1
  if hparam : r ≤ 0 then (l, .ret esqErrorParam)
  else if hfit : (logBufSize : Int) - l.bufOffset l.userIdx ≤ r then
    if (logBufSize : Int) ≤ r then (l, .ret esqErrorSize)
    else (l.setFull l.userIdx, .again)
  else (l.accept r.toNat (by omega), .ret esqOk)

def EsqLogger.advance (l : EsqLogger) : EsqLogger :=
  let next := esqLoggerBufNextIdx l.userIdx
  { l with
    userIdx := next
    bufState := Function.update l.bufState next .use
    bufOffset := Function.update l.bufOffset next ⟨0, by decide⟩ }

def EsqLogger.claim (l : EsqLogger) : EsqLogger :=
  { l with bufState := Function.update l.bufState l.userIdx .use }

def esqLogTurn (l : EsqLogger) (text : LogText) : EsqLogger × LogTurn :=
  if l.stopFlag then (l, .ret esqErrorClose)
  else if l.bufState l.userIdx = .full then
    if l.bufState (esqLoggerBufNextIdx l.userIdx) = .empty then esqLogFormat l.advance text
    else ({ l with workerSem := l.workerSem + 1 }, .wait)
  else esqLogFormat l.claim text

/-! ## 書き戻し -/

/-- `esq_logger_flush_to_disk`。書けなければ `-1` を返す。 -/
def esqLoggerFlushToDisk (io : LoggerIo) (l : EsqLogger) (bufIdx : LogBufIdx)
    (bufLength : Nat) : EsqLogger × Int :=
  let opened : EsqLogger :=
    if l.fd = -1 then
      -- `esq_logger_fill_log_filename` は番号を一つ使う
      let filenameIdx := if l.filenameIdx + 1 > 9999 then 0 else l.filenameIdx + 1
      { l with fd := io.fd, filenameIdx := filenameIdx }
    else l
  if opened.fd = -1 then (opened, -1)
  else
    let r := io.write bufLength
    let bytes := ((opened.buf bufIdx).bytes.take bufLength).take r.toNat
    let l := { opened with written := opened.written ++ [bytes] }
    (l, if r = bufLength then 0 else -1)

def esqLoggerCloseFile (l : EsqLogger) : EsqLogger := { l with fd := -1 }

/-- `esq_logger_flush_one_buffer` の、どこにいるか。 -/
inductive FlushPc where
  /-- 初めの時計の比べ -/
  | enter
  /-- 書き戻す buffer を選ぶ -/
  | pick
  /-- lock の外で書く -/
  | write (offset : Nat)
  /-- 書いた buffer を空ける -/
  | retire
  /-- `__io_error` -/
  | ioError
  /-- `__drop_all` -/
  | dropAll
deriving DecidableEq, Repr

/-- 探し始める buffer。呼び手の使っているものは後に回す。 -/
def EsqLogger.scanStart (l : EsqLogger) : LogBufIdx :=
  if l.workerIdx = l.userIdx then esqLoggerBufNextIdx l.workerIdx else l.workerIdx

def EsqLogger.scan (l : EsqLogger) : Option LogBufIdx :=
  scanFrom esqLoggerBufNextIdx (fun i => l.bufState i != .empty) logBufCnt l.scanStart

/-- worker が buffer を取る。呼び手の使っているものでも取る。 -/
def EsqLogger.grab (l : EsqLogger) (i : LogBufIdx) : EsqLogger :=
  { l.setFull i with workerIdx := i }

/-- 書き戻す buffer を選ぶ。`none` は、書かずに返ることである。 -/
def esqLoggerPick (l : EsqLogger) : EsqLogger × Option FlushPc :=
  match l.scan with
  | none => ({ l with userSem := l.userSem + 1 }, none)
  | some idx =>
    let l := l.grab idx
    if (l.bufOffset idx).val = 0 then ({ l with userSem := l.userSem + 1 }, none)
    else (l, some (.write (l.bufOffset idx)))

def EsqLogger.retire (l : EsqLogger) : EsqLogger :=
  { l with
    bufOffset := Function.update l.bufOffset l.workerIdx ⟨0, by decide⟩
    bufState := Function.update l.bufState l.workerIdx .empty
    userSem := l.userSem + 1 }

def EsqLogger.dropAll (l : EsqLogger) : EsqLogger :=
  { l with
    bufOffset := fun _ => ⟨0, by decide⟩
    bufState := fun _ => .empty
    userIdx := ⟨0, by decide⟩
    workerIdx := ⟨0, by decide⟩
    userSem := l.userSem + 1 }

/-- `esq_logger_flush_one_buffer` の一歩。`none` は、返ることである。 -/
def esqLoggerFlushStep (io : LoggerIo) (l : EsqLogger) : FlushPc → EsqLogger × Option FlushPc
  | .enter =>
    if l.lastIoErrorTime ≠ 0 ∧ l.lastIoErrorTime + ioErrorPauseGap < io.time then
      (l, some .dropAll)
    else (l, some .pick)
  | .pick => esqLoggerPick l
  | .write offset =>
    let l' := (esqLoggerFlushToDisk io l l.workerIdx offset).1
    let r := (esqLoggerFlushToDisk io l l.workerIdx offset).2
    if r ≠ 0 then (l', some .ioError) else (l', some .retire)
  | .retire => (l.retire, none)
  | .ioError => ({ l with lastIoErrorTime := io.time }, some .dropAll)
  | .dropAll => (l.dropAll, none)

/-! ## worker thread -/

inductive WorkerPc where
  /-- `sem_wait(&esq_logger_worker_sem)` -/
  | wait
  /-- 止める印を見る -/
  | check
  /-- loop の中の `esq_logger_flush_one_buffer` -/
  | flush (pc : FlushPc)
  /-- file を替える印を見る -/
  | rename
  /-- loop の後の、`i` 番目の `esq_logger_flush_one_buffer` -/
  | last (i : Nat) (pc : FlushPc)
  /-- 最後の `esq_logger_close_file` -/
  | close
  /-- 終わった -/
  | ended
deriving DecidableEq, Repr

def esqLoggerWorkerStep (io : LoggerIo) (l : EsqLogger) :
    WorkerPc → Option (EsqLogger × WorkerPc)
  | .wait =>
    if l.workerSem = 0 then none else some ({ l with workerSem := l.workerSem - 1 }, .check)
  | .check => some (l, if l.stopFlag then .last 0 .enter else .flush .enter)
  | .flush pc =>
    match esqLoggerFlushStep io l pc with
    | (l, some pc) => some (l, .flush pc)
    | (l, none) => some (l, .rename)
  | .rename =>
    if l.changeFilenameFlag then
      some (esqLoggerCloseFile { l with changeFilenameFlag := false }, .wait)
    else some (l, .wait)
  | .last i pc =>
    match esqLoggerFlushStep io l pc with
    | (l, some pc) => some (l, .last i pc)
    | (l, none) => some (l, if i + 1 < logBufCnt then .last (i + 1) .enter else .close)
  | .close => some (esqLoggerCloseFile l, .ended)
  | .ended => none

/-! ## 全体 -/

inductive LogCaller where
  /-- `esq_log` の外 -/
  | idle
  /-- lock を取るところ -/
  | ready (text : LogText)
  /-- `sem_wait(&esq_logger_user_sem)` -/
  | waiting (text : LogText)
deriving DecidableEq, Repr

structure LogWorld where
  logger : EsqLogger
  worker : WorkerPc
  callers : Nat → LogCaller
  /-- 返った `esq_log` の文字列と戻り値を、最後に lock を取った順に並べたもの -/
  returned : List (LogText × Int)
  /-- buffer に残る byte のうち最も古いものが、何番目に受け取った文字列か -/
  birth : LogBufIdx → Nat

def LogWorld.init : LogWorld where
  logger := .init
  worker := .wait
  callers := fun _ => .idle
  returned := []
  birth := fun _ => 0

def LogWorld.accepted (s : LogWorld) : List (List UInt8) :=
  s.returned.filterMap fun x => if x.2 = esqOk then x.1 else none

inductive LogAct where
  /-- `c` が `esq_log` を呼ぶ -/
  | call (c : Nat) (text : LogText)
  /-- `c` が lock を取って放す -/
  | turn (c : Nat)
  /-- `c` の `sem_wait` が返る -/
  | wake (c : Nat)
  /-- worker が一歩進む -/
  | work (io : LoggerIo)
  /-- `esq_logger_detach` が止める印を立てる -/
  | detach
  /-- `ChangeLogFile` -/
  | changeLogFile

def LogTurn.caller (text : LogText) : LogTurn → LogCaller
  | .ret _ => .idle
  | .wait => .waiting text
  | .again => .ready text

def LogWorld.turn (s : LogWorld) (c : Nat) (text : LogText) : LogWorld :=
  let l := (esqLogTurn s.logger text).1
  let r := (esqLogTurn s.logger text).2
  { s with
    logger := l
    callers := Function.update s.callers c (r.caller text)
    returned := match r with
      | .ret code => s.returned ++ [(text, code)]
      | _ => s.returned
    -- 空いた buffer に受け取ったなら、それが最も古い
    birth := if r = .ret esqOk ∧ (l.bufOffset l.userIdx).val = (text.getD []).length then
        Function.update s.birth l.userIdx s.accepted.length
      else s.birth }

/-- 全体の一歩。`none` は、その step が起こりえないことである。 -/
def LogWorld.step (s : LogWorld) : LogAct → Option LogWorld
  | .call c text =>
    if s.callers c = .idle then
      some { s with callers := Function.update s.callers c (.ready text) }
    else none
  | .turn c =>
    match s.callers c with
    | .ready text => some (s.turn c text)
    | _ => none
  | .wake c =>
    match s.callers c with
    | .waiting text =>
      if s.logger.userSem = 0 then none
      else some { s with
        logger := { s.logger with userSem := s.logger.userSem - 1 }
        callers := Function.update s.callers c (.ready text) }
    | _ => none
  | .work io =>
    match esqLoggerWorkerStep io s.logger s.worker with
    | some (l, pc) => some { s with logger := l, worker := pc }
    | none => none
  | .detach => some { s with
      logger := { s.logger with
        stopFlag := true
        userSem := s.logger.userSem + 1
        workerSem := s.logger.workerSem + 1 } }
  | .changeLogFile => some { s with
      logger := { s.logger with
        changeFilenameFlag := true
        workerSem := s.logger.workerSem + 1 } }

end Esq
