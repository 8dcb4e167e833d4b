import Esq.Session.HashWaitLists

/-!
# ロックを待つ session を起こす

ロックが空くと `esq_hash_lock_release` が次に持つ要求を wake-up list に繋ぎ、
要求を出した worker が `esq_worker_pick_up_from_local_wake_up_list` でそれを取って
session を起こす。ロックの列、worker の wake-up list、待つ session の状態機械の三つを合わせて見る。

worker が渡すのは `esq_session_pick_up`、すなわち `ACTION_PICK_UP` である。待つ session は
`__winded_up` にいて、`ACTION_PICK_UP` を受け付けない。

* `hash_lock_waiter_never_woken` — 解放で持つ番になった要求の session が `__winded_up` で待っていれば、
  その後どう続いても、worker がその要求を取ったところで `INVALID_ACTION_TYPE` に着く
-/

namespace Esq

open Infra

/-! ## 系 -/

/-- hash lock と、番地で区別した worker。session は要求を出した worker に属する。 -/
structure HashSystem where
  locks : HashLocks
  worker : Nat → HashWorker

def HashSystem.init : HashSystem where
  locks := HashLocks.init false
  worker _ := HashWorker.init

inductive SystemOp where
  /-- worker `w` の上の、hash lock に触れない操作 -/
  | on (w : Nat) (op : HashOp)
  /-- worker `w` が new list から取る -/
  | pickUp (w : Nat) (k : NewList) (mallocOk : Bool)
  /-- worker `w` が wake-up list から取る -/
  | wakeUp (w : Nat)
  /-- session `x` の `esq_hash_lock_release` -/
  | release (x : Nat) (idx : Int)
deriving DecidableEq, Repr

namespace HashSystem

def setWorker (s : HashSystem) (w : Nat) (hw : HashWorker) : HashSystem :=
  { s with worker := Function.update s.worker w hw }

def onWorker (s : HashSystem) (w : Nat) (op : HashOp) : Except Fault HashSystem := do
  let hw ← hashStep (s.worker w) op
  .ok (s.setWorker w hw)

/-- new list の先頭が hash lock を求める session なら、ここで求める。 -/
def fetch (s : HashSystem) (w : Nat) (k : NewList) (mallocOk : Bool) :
    Except Fault (Int × HashLocks) :=
  let hw := s.worker w
  match (hw.worker.newEnds k).head with
  | none => .ok (esqOk, s.locks)
  | some x =>
    if hw.waiting x && (hw.wait x).lc = .waitForCpu then
      esqTryFetchHashLock s.locks x (hw.wait x).hashLockState (hw.wait x).hashLockIdx w mallocOk
    else .ok (esqOk, s.locks)

end HashSystem

def systemStep (s : HashSystem) : SystemOp → Except Fault HashSystem
  | .on w op =>
    match op with
    | .pickUp _ _ => .ok s
    | .wakeUp _ _ => .ok s
    | op => s.onWorker w op
  | .pickUp w k mallocOk => do
    let (r, locks) ← s.fetch w k mallocOk
    ({ s with locks } : HashSystem).onWorker w (.pickUp k r)
  | .wakeUp w => do
    let (session, locks) ← esqWorkerPickUpFromLocalWakeUpList s.locks w
    match session with
    | none => .ok { s with locks }
    | some y => ({ s with locks } : HashSystem).onWorker w (.wakeUp y s.locks.serverStopFlag)
  | .release x idx => do
    let released ← esqHashLockRelease s.locks x idx
    .ok { s with locks := released.locks }

def systemStep? (s : HashSystem) (op : SystemOp) : Option HashSystem := (systemStep s op).toOption

/-! ## 起こされること -/

/--
`x` の解放で、`__winded_up` で待つ session `y` の要求 `a` が持つ番になった。

`w` は要求を出した worker、`s'` は解放の後の系である。
-/
structure Eligible (s : HashSystem) (x : Nat) (idx : Int) (w : Nat) (a : CtxAddr) (y : Nat)
    (s' : HashSystem) : Prop where
  release : ∃ released, esqHashLockRelease s.locks x idx = .ok released ∧ a ∈ released.woken
    ∧ s' = { s with locks := released.locks }
  session : (s'.locks.ctx a).session = some y
  workerCtx : (s'.locks.ctx a).workerCtx = w
  waiting : (s.worker w).waiting y = true
  windedUp : ((s.worker w).wait y).lc = .windedUp

/-- worker `w` が次に取る要求が、`__winded_up` で待つ session `y` の要求 `a` である。 -/
structure TakesRequest (t : HashSystem) (w : Nat) (a : CtxAddr) (y : Nat) : Prop where
  head : (t.locks.wakeUpList w).head = some a
  session : (t.locks.ctx a).session = some y
  workerCtx : (t.locks.ctx a).workerCtx = w
  waiting : (t.worker w).waiting y = true
  windedUp : ((t.worker w).wait y).lc = .windedUp

/--
`ops` の間に、worker `w` が要求 `a` を wake-up list から取り、待っていた `y` に
`ESQ_EVENT_BIT_LOCK_OBTAIN` を渡して active list に移し、callback を呼ぶ。
-/
def WakesUp (s : HashSystem) (w : Nat) (a : CtxAddr) (y : Nat) (ops : List SystemOp) : Prop :=
  ∃ before between after t t' u u', ops = before ++ .wakeUp w :: between ++ .on w (.execute y) :: after
    ∧ runFrom systemStep? s before = some t ∧ TakesRequest t w a y
    ∧ systemStep t (.wakeUp w) = .ok t'
    ∧ ((t'.worker w).wait y).lc = .active ∧ InList (t'.worker w).worker .active y
    ∧ hasBit ((t'.worker w).session y).eventBits esqEventBitLockObtain = true
    ∧ runFrom systemStep? t' between = some u ∧ systemStep u (.on w (.execute y)) = .ok u'

theorem TakesRequest.invalid {t : HashSystem} {w : Nat} {a : CtxAddr} {y : Nat}
    (h : TakesRequest t w a y) : systemStep t (.wakeUp w) = .error .invalidActionType := by
  have htake : ∃ locks, esqWorkerPickUpFromLocalWakeUpList t.locks w = .ok (some y, locks) := by
    unfold esqWorkerPickUpFromLocalWakeUpList
    rw [h.head]
    dsimp only
    rw [if_neg (not_not.mpr h.workerCtx), h.session]
    exact ⟨_, rfl⟩
  obtain ⟨locks, htake⟩ := htake
  unfold systemStep
  dsimp only
  rw [htake, ok_bind]
  dsimp only
  unfold HashSystem.onWorker
  rw [hashStep_wakeUp h.waiting (Or.inl h.windedUp), error_bind]

theorem not_wakesUp {s : HashSystem} {w : Nat} {a : CtxAddr} {y : Nat} {ops : List SystemOp} :
    ¬ WakesUp s w a y ops := by
  rintro ⟨before, between, after, t, t', u, u', -, -, ht, hstep, -⟩
  rw [ht.invalid] at hstep
  cases hstep

theorem Eligible.takesRequest {s s' : HashSystem} {x y w : Nat} {idx : Int} {a : CtxAddr}
    (h : Eligible s x idx w a y s') (hhead : (s'.locks.wakeUpList w).head = some a) :
    TakesRequest s' w a y := by
  obtain ⟨released, -, -, rfl⟩ := h.release
  exact ⟨hhead, h.session, h.workerCtx, h.waiting, h.windedUp⟩

/--
**解放で持つ番になっても、`__winded_up` で待つ session は起こされない。**

worker がその要求を取ると、いつでも `INVALID_ACTION_TYPE` でプロセスが終わる。
-/
theorem hash_lock_waiter_never_woken {s s' : HashSystem} {x y w : Nat} {idx : Int} {a : CtxAddr}
    (h : Eligible s x idx w a y s') :
    ((s'.locks.wakeUpList w).head = some a →
        systemStep s' (.wakeUp w) = .error .invalidActionType)
      ∧ (∀ ops t, runFrom systemStep? s' ops = some t → TakesRequest t w a y →
        systemStep t (.wakeUp w) = .error .invalidActionType)
      ∧ ∀ ops, ¬ WakesUp s' w a y ops :=
  ⟨fun hhead => (h.takesRequest hhead).invalid, fun _ _ _ ht => ht.invalid, fun _ => not_wakesUp⟩

/-- worker 0 の session 0 がロック 3 を書きで持ち、worker 1 の session 1 が書きで待つ。 -/
def secondWriterOps : List SystemOp :=
  [.on 0 (.new 0), .on 0 (.request 0 .write { timeouts := 5, hashLockIdx := 3 }), .on 0 (.windUp 0),
    .pickUp 0 .localNew true, .on 1 (.new 1),
    .on 1 (.request 1 .write { timeouts := 5, hashLockIdx := 3 }), .on 1 (.windUp 1),
    .pickUp 1 .localNew true, .on 0 (.execute 0)]

theorem second_writer_eligible :
    ∃ s s', runFrom systemStep? HashSystem.init secondWriterOps = some s
      ∧ Eligible s 0 3 1 (.slot 1 0) 1 s'
      ∧ (s'.locks.wakeUpList 1).head = some (.slot 1 0) :=
  ⟨_, _, rfl, ⟨⟨_, rfl, List.mem_singleton.mpr rfl, rfl⟩, rfl, rfl, rfl, rfl⟩, rfl⟩

theorem hash_lock_waiter_never_woken_second_writer :
    ∃ s s', runFrom systemStep? HashSystem.init secondWriterOps = some s
      ∧ Eligible s 0 3 1 (.slot 1 0) 1 s'
      ∧ systemStep s' (.wakeUp 1) = .error .invalidActionType
      ∧ ∀ ops, ¬ WakesUp s' 1 (.slot 1 0) 1 ops := by
  obtain ⟨s, s', hrun, helig, hhead⟩ := second_writer_eligible
  obtain ⟨hfirst, -, hnever⟩ := hash_lock_waiter_never_woken helig
  exact ⟨s, s', hrun, helig, hfirst hhead, hnever⟩

/-- worker 1 が session 1 の要求を取ると、session を起こさずにプロセスが終わる。 -/
theorem second_writer_pick_up_invalid :
    ∃ s s', runFrom systemStep? HashSystem.init secondWriterOps = some s
      ∧ Eligible s 0 3 1 (.slot 1 0) 1 s'
      ∧ TakesRequest s' 1 (.slot 1 0) 1
      ∧ systemStep s' (.wakeUp 1) = .error .invalidActionType
      ∧ ¬ ∃ ops, WakesUp s' 1 (.slot 1 0) 1 ops := by
  obtain ⟨s, s', hrun, helig, hhead⟩ := second_writer_eligible
  have htakes := helig.takesRequest hhead
  exact ⟨s, s', hrun, helig, htakes, htakes.invalid, fun ⟨_, h⟩ => not_wakesUp h⟩

end Esq
