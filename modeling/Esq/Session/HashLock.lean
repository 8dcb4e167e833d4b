import Esq.Basic
import Esq.Infra.Dll
import Esq.Infra.Run
import Esq.Infra.RwQueue

/-!
# hash lock

`session/hash_lock.c`。128 個の読み書きロックがあり、要求（ctx）は到着順に
`ctx_head` から `next` で繋がる。先頭が書きならその要求だけ、読みなら先頭から続く読みが
ロックを持つ。解放で新しく持つことになった要求は、要求を出した worker の
wake-up list に繋がれる。

## ctx の番地

ctx はまず session に埋め込まれた三つの欄から取り、塞がっていれば malloc する
（`esq_alloc_hash_lock_ctx`）。埋め込みの欄は解放すると再び使われるので、
同じ番地が別の要求を表すことがある。`next` と `next_in_local_wake_up_list` は
番地から引く関数として別に持つ。

spinlock で守られた区間は一つの step として扱う。
-/

namespace Esq

open Infra

/-! ## データ -/

/-- `ESQ_SESSION_HASH_LOCK_READ` / `ESQ_SESSION_HASH_LOCK_WRITE`。 -/
inductive HashLockState where
  | read
  | write
deriving DecidableEq, Repr

/-- ctx の番地。session に埋め込まれた欄か、malloc した領域。 -/
inductive CtxAddr where
  | slot (session : Nat) (i : Fin 3)
  | heap (n : Nat)
deriving DecidableEq, Repr

/-- `esq_hash_lock_ctx_t` のうち、リンク以外の欄。 -/
structure HashLockCtx where
  state : HashLockState := .read
  idx : Int := 0
  session : Option Nat := none
  workerCtx : Nat := 0
deriving DecidableEq, Repr

def hashLockMax : Int := 128

structure HashLocks where
  ctx : CtxAddr → HashLockCtx
  next : CtxAddr → Option CtxAddr
  nextInEsqSession : CtxAddr → Option CtxAddr
  nextInLocalWakeUpList : CtxAddr → Option CtxAddr
  /-- session の `hash_lock_ctx_list` -/
  hashLockCtxList : Nat → Option CtxAddr
  /-- `esq_hash_locks[idx]` の `ctx_head` と `ctx_tail` -/
  lock : Int → Ends CtxAddr
  /-- worker の `hash_lock_wake_up_list_head` と `hash_lock_wake_up_list_tail` -/
  wakeUpList : Nat → Ends CtxAddr
  /-- 次に malloc が返す番地 -/
  brk : Nat
  /-- これまでに確保した ctx の数。走査の燃料に使う -/
  allocated : Nat
  /-- `esq_get_server_stop_flag()` -/
  serverStopFlag : Bool

def HashLocks.init (serverStopFlag : Bool) : HashLocks where
  ctx _ := {}
  next _ := none
  nextInEsqSession _ := none
  nextInLocalWakeUpList _ := none
  hashLockCtxList _ := none
  lock _ := {}
  wakeUpList _ := {}
  brk := 0
  allocated := 0
  serverStopFlag := serverStopFlag

/-- `for (p = hash_lock->ctx_head; p; p = p->next)` が通る ctx。 -/
def HashLocks.queue (s : HashLocks) (idx : Int) : List CtxAddr :=
  walk s.next s.allocated (s.lock idx).head

/-! ## ctx の確保と解放 -/

def HashLocks.setCtx (s : HashLocks) (a : CtxAddr) (c : HashLockCtx) : HashLocks :=
  { s with ctx := Function.update s.ctx a c }

/--
`esq_alloc_hash_lock_ctx`

空いている埋め込みの欄があればそれを、無ければ malloc した領域を返す。
`mallocOk` は malloc が成功するかどうかである。
-/
def esqAllocHashLockCtx (s : HashLocks) (session : Nat) (mallocOk : Bool) :
    Option (CtxAddr × HashLocks) :=
  match (List.finRange 3).find? fun i => (s.ctx (.slot session i)).session.isNone with
  | some i =>
    let a := CtxAddr.slot session i
    some (a, { s.setCtx a { s.ctx a with session := some session } with
      allocated := s.allocated + 1 })
  | none =>
    if mallocOk then
      let a := CtxAddr.heap s.brk
      some (a, { s.setCtx a { session := some session } with
        next := Function.update s.next a none
        nextInEsqSession := Function.update s.nextInEsqSession a none
        nextInLocalWakeUpList := Function.update s.nextInLocalWakeUpList a none
        brk := s.brk + 1
        allocated := s.allocated + 1 })
    else none

def esqFreeHashLockCtx (s : HashLocks) (a : CtxAddr) : Except Fault HashLocks :=
  match (s.ctx a).session with
  | none => .error .designError
  | some _ => .ok (s.setCtx a { s.ctx a with session := none })

/-! ## 要求 -/

def ctxJoinTail (s : HashLocks) (idx : Int) (a : CtxAddr) : Except Fault HashLocks :=
  match (s.lock idx).tail with
  | none => .error .segv
  | some t =>
    let r := pushTail s.next (s.lock idx) t a
    .ok { s with next := r.1, lock := Function.update s.lock idx r.2 }

def ctxJoinAsTheFirst (s : HashLocks) (idx : Int) (a : CtxAddr) : HashLocks :=
  let r := pushFirst s.next a
  { s with next := r.1, lock := Function.update s.lock idx r.2 }

def joinSession (s : HashLocks) (a : CtxAddr) : HashLocks :=
  match (s.ctx a).session with
  | none => s
  | some session =>
    { s with
      nextInEsqSession := Function.update s.nextInEsqSession a (s.hashLockCtxList session)
      hashLockCtxList := Function.update s.hashLockCtxList session (some a) }

def esqTryReadHashLock (s : HashLocks) (idx : Int) (a : CtxAddr) :
    Except Fault (Int × HashLocks) :=
  match (s.lock idx).head with
  | none => .ok (esqOk, joinSession (ctxJoinAsTheFirst s idx a) a)
  | some _ => do
    let s' ← ctxJoinTail s idx a
    if (s.queue idx).all fun p => (s.ctx p).state = .read then
      .ok (esqOk, joinSession s' a)
    else
      .ok (esqErrorBusy, joinSession s' a)

def esqTryWriteHashLock (s : HashLocks) (idx : Int) (a : CtxAddr) :
    Except Fault (Int × HashLocks) :=
  match (s.lock idx).head with
  | none => .ok (esqOk, joinSession (ctxJoinAsTheFirst s idx a) a)
  | some _ => do
    let s' ← ctxJoinTail s idx a
    .ok (esqErrorBusy, joinSession s' a)

def esqHashLockCheckDup (s : HashLocks) (idx : Int) (a : CtxAddr) : Except Fault Unit :=
  if (s.queue idx).any fun p => a = p ∨ (s.ctx p).session = (s.ctx a).session then
    .error .designError
  else .ok ()

/--
`esq_try_fetch_hash_lock`

`session->hash_lock_idx` と `session->hash_lock_state` は引数で、
`esq_worker_get_ctx()` は `workerCtx` で受ける。
-/
def esqTryFetchHashLock (s : HashLocks) (session : Nat) (state : HashLockState) (idx : Int)
    (workerCtx : Nat) (mallocOk : Bool) : Except Fault (Int × HashLocks) :=
  if idx < 0 ∨ hashLockMax ≤ idx then .error .designError
  else if s.serverStopFlag then .ok (esqErrorClose, s)
  else match esqAllocHashLockCtx s session mallocOk with
    | none => .ok (esqErrorMemory, s)
    | some (a, s) => do
      let s := s.setCtx a { s.ctx a with state := state, idx := idx, workerCtx := workerCtx }
      esqHashLockCheckDup s idx a
      match state with
      | .read => esqTryReadHashLock s idx a
      | .write => esqTryWriteHashLock s idx a

/-! ## 解放 -/

def hashLockCtxJoinWorkCtx (s : HashLocks) (p : CtxAddr) : Except Fault HashLocks :=
  let w := (s.ctx p).workerCtx
  match push s.nextInLocalWakeUpList (s.wakeUpList w) p with
  | none => .error .segv
  | some (next, ends) =>
    .ok { s with nextInLocalWakeUpList := next, wakeUpList := Function.update s.wakeUpList w ends }

def joinReaders (s : HashLocks) : List CtxAddr → Except Fault (HashLocks × List CtxAddr)
  | [] => .ok (s, [])
  | p :: rest =>
    match (s.ctx p).state with
    | .read => do
      let s' ← hashLockCtxJoinWorkCtx s p
      let (s'', ws) ← joinReaders s' rest
      .ok (s'', p :: ws)
    | .write => .ok (s, [])

/--
`__esq_hash_lock_ctx_join_local_wake_up_list`

繋いだ ctx の列も返す。
-/
def esqHashLockCtxJoinLocalWakeUpList (s : HashLocks) (idx : Int) :
    Except Fault (HashLocks × List CtxAddr) :=
  match s.queue idx with
  | [] => .ok (s, [])
  | p :: rest =>
    match (s.ctx p).state with
    | .read => joinReaders s (p :: rest)
    | .write => do
      let s' ← hashLockCtxJoinWorkCtx s p
      .ok (s', [p])

/-- 解放の結果。`woken` は wake-up list に繋いだ ctx である。 -/
structure Released where
  code : Int
  locks : HashLocks
  woken : List CtxAddr

def goodToGo (s : HashLocks) (p : CtxAddr) : Except Fault Released := do
  let s' ← esqFreeHashLockCtx s p
  .ok { code := esqOk, locks := s', woken := [] }

def wakeUpOtherSessions (s : HashLocks) (idx : Int) (p : CtxAddr) : Except Fault Released := do
  let (s', ws) ← esqHashLockCtxJoinLocalWakeUpList s idx
  let s'' ← esqFreeHashLockCtx s' p
  .ok { code := esqOk, locks := s'', woken := ws }

def HashLocks.setHead (s : HashLocks) (idx : Int) (h : Option CtxAddr) : HashLocks :=
  { s with lock := Function.update s.lock idx { s.lock idx with head := h } }

/--
`esq_hash_lock_release` の読みの側の loop。`pp` は一つ手前の ctx である。

先頭の読みを外すときは `p->next` が NULL かどうかを見ずに `p->next->state` を読む。
途中の読みを外すときは `ctx_tail` を直さない。
-/
def releaseRead (s : HashLocks) (idx : Int) (session : Nat) :
    Option CtxAddr → List CtxAddr → Except Fault Released
  | _, [] => .error .designError
  | pp, p :: rest =>
    match (s.ctx p).state with
    | .write => .error .designError
    | .read =>
      if (s.ctx p).session = some session then
        match pp with
        | some q => goodToGo { s with next := Function.update s.next q (s.next p) } p
        | none =>
          let s' := s.setHead idx (s.next p)
          match s.next p with
          | none => .error .segv
          | some n =>
            match (s.ctx n).state with
            | .read => goodToGo s' p
            | .write => wakeUpOtherSessions s' idx p
      else releaseRead s idx session (some p) rest

def esqHashLockRelease (s : HashLocks) (session : Nat) (idx : Int) : Except Fault Released :=
  if idx < 0 ∨ hashLockMax ≤ idx then .error .designError
  else match (s.lock idx).head with
    | none => .error .designError
    | some p =>
      match (s.ctx p).state with
      | .read => releaseRead s idx session none (s.queue idx)
      | .write =>
        if (s.ctx p).session = some session then
          wakeUpOtherSessions (s.setHead idx (s.next p)) idx p
        else .error .designError

/-! ## wake-up list からの取り出し -/

/--
`esq_worker_pick_up_from_local_wake_up_list` のうち、list から一つ取る所まで。

取り出した ctx の session を返す。session への通知は session の状態機械の仕事である。
-/
def esqWorkerPickUpFromLocalWakeUpList (s : HashLocks) (workerCtx : Nat) :
    Except Fault (Option Nat × HashLocks) :=
  match (s.wakeUpList workerCtx).head with
  | none => .ok (none, s)
  | some a =>
    let wl := popEnds s.nextInLocalWakeUpList (s.wakeUpList workerCtx) a
    let s' := { s with wakeUpList := Function.update s.wakeUpList workerCtx wl }
    if (s.ctx a).workerCtx ≠ workerCtx then .error .designError
    else match (s.ctx a).session with
      | none => .error .segv
      | some session => .ok (some session, s')

end Esq
