import Esq.Session.Chassis

/-!
# `esq_hash_lock_read` と `esq_hash_lock_write`

`session/action.c` の二つの関数。どちらも `action_buf` を stack の上に置き、埋めた欄だけが
決まった値を持つ。埋めない欄は stack に残っていた値（`StackWords`）になる。

書きの要求は `timeoutms` を 0 にするが、読みの要求は埋めない。もう一つの違いは
callback の中から呼んだときで、読みの枝は `post_op` に session type の値 5 を書く。
5 は `POP_FREE_SESSION` の bit を含むので、session は型を切り替えずに終わる。

* `hash_lock_read_like_write` — 二つの要求が同じ結果になるための、ちょうどの条件
-/

namespace Esq

open Infra

structure LockCall where
  hashLockIdx : Int
  cb : Nat
  userParam : Nat
  timeoutS : Int
deriving DecidableEq, Repr

/-- `action_buf` の、埋めない欄に残っていた値。 -/
structure StackWords where
  fd : Int
  timeoutms : Int
deriving DecidableEq, Repr

def LockCall.readAction (call : LockCall) (words : StackWords) : ChassisAction where
  action := .hashLockRead
  params := {
    fd := words.fd
    timeouts := call.timeoutS
    timeoutms := words.timeoutms
    cb := call.cb
    userParam := call.userParam
    hashLockIdx := call.hashLockIdx }

def LockCall.writeAction (call : LockCall) (words : StackWords) : ChassisAction where
  action := .hashLockWrite
  params := {
    fd := words.fd
    timeouts := call.timeoutS
    timeoutms := 0
    cb := call.cb
    userParam := call.userParam
    hashLockIdx := call.hashLockIdx }

/-- `esq_hash_lock_read`。`__esq_session_take_action` の戻り値も返す。 -/
def esqHashLockRead (h : Heap) (x : Nat) (call : LockCall) (words : StackWords) :
    Except Fault (Int × Heap) :=
  if call.timeoutS < -1 then .error .designError
  else h.esqSessionTakeAction x (call.readAction words)

/-- `esq_hash_lock_write`。`__esq_session_take_action` の戻り値も返す。 -/
def esqHashLockWrite (h : Heap) (x : Nat) (call : LockCall) (words : StackWords) :
    Except Fault (Int × Heap) :=
  if call.timeoutS < -1 then .error .designError
  else h.esqSessionTakeAction x (call.writeAction words)

/-! ## 二つの要求の違い -/

def SessionCell.eraseMode (c : SessionCell) : SessionCell :=
  { c with wait := { c.wait with hashLockState := .read } }

/-- ロックの種類の他は同じ状態である。どの session の欄も、list の操作も、解放も比べる。 -/
structure SameExceptMode (h h' : Heap) : Prop where
  cell : ∀ y, (h.cell y).eraseMode = (h'.cell y).eraseMode
  allocated : h.allocated = h'.allocated
  log : h.log = h'.log

/-- single shot か hash lock の callback が動いている。 -/
def SessionCell.Executing (c : SessionCell) : Prop :=
  (c.session.sessionType = .socketCb ∧ c.session.lc = .single .executeCb) ∨
    (c.session.sessionType = .waitForHashLock ∧ c.session.lc = .start ∧ c.wait.lc = .executeCb)

instance (c : SessionCell) : Decidable c.Executing := by
  unfold SessionCell.Executing
  infer_instance

def SessionCell.Fresh (c : SessionCell) : Prop :=
  c.session.sessionType = .new ∨ c.session.sessionType = .noFd ∨
    (c.session.sessionType = .waitForHashLock ∧ c.session.lc = .start ∧ c.wait.lc = .start)

instance (c : SessionCell) : Decidable c.Fresh := by
  unfold SessionCell.Fresh
  infer_instance

/--
読みの要求が書きの要求と同じになる条件。

callback は動いておらず、引数を写す session なら、埋めない `timeoutms` がたまたま 0 である。
-/
structure ReadLikeWrite (c : SessionCell) (words : StackWords) : Prop where
  idle : ¬ c.Executing
  timeoutms : c.Fresh → words.timeoutms = 0

/-! ## session の側 -/

section

variable {c c' : SessionCell} {call : LockCall} {words : StackWords} {es : List Effect}
  {a : ChassisAction}

theorem SessionCell.act_stay (h : c.ready.step a = .ok (c', es))
    (hsw : wantsSwitch c'.session.postOp = false) : c.act a = .ok (c', es) := by
  unfold SessionCell.act
  rw [h, ok_bind]
  dsimp only
  rw [hsw, if_neg Bool.false_ne_true]

def ChassisAction.IsLockRequest (a : ChassisAction) : Prop :=
  a.action = .hashLockRead ∨ a.action = .hashLockWrite

def SessionCell.requested (c : SessionCell) (a : ChassisAction) : SessionCell where
  session := (HashLockPt.start { session :=
    ({ c.session with sessionType := .waitForHashLock, lc := .start } : Session).ready }
      a.params).1.session
  wait := HashWait.begin a.action a.params
  mco := if c.session.sessionType = .waitForHashLock then c.mco else .start

theorem SessionCell.step_hashLockStart (ht : c.session.sessionType = .waitForHashLock)
    (hlc : c.session.lc = .start) (hw : c.wait.lc = .start) :
    c.step a = .ok ({ c with
      session := (HashLockPt.start { session := c.session } a.params).1.session
      wait := HashWait.begin a.action a.params }, []) := by
  unfold SessionCell.step
  rw [ht]
  dsimp only
  rw [if_pos hlc]
  unfold esqPtOfHashLock
  rw [hw]
  rfl

theorem SessionCell.act_switch (ht : c'.session.sessionType = .waitForHashLock)
    (h : c.ready.step a = .ok (c', [])) (hsw : wantsSwitch c'.session.postOp = true) :
    c.act a = .ok ({
      session := (HashLockPt.start { session := c'.restart.ready.session } a.params).1.session
      wait := HashWait.begin a.action a.params
      mco := .start }, []) := by
  unfold SessionCell.act
  rw [h, ok_bind]
  dsimp only
  rw [if_pos hsw, SessionCell.step_hashLockStart (c := c'.restart.ready) ht rfl rfl]
  rfl

theorem wantsSwitch_switchSessionType : wantsSwitch popSwitchSessionType = true := by decide

theorem wantsSwitch_noOp : wantsSwitch popNoOp = false := by decide

theorem wantsSwitch_returnValue : wantsSwitch popReturnValue = false := by decide

theorem SessionCell.Fresh.act (hf : c.Fresh) (ha : a.IsLockRequest) :
    c.act a = .ok (c.requested a, []) := by
  have hnew : c.session.sessionType = .new ∨ c.session.sessionType = .noFd →
      c.ready.step a = .ok ({ c with session := { c.session.ready with
        sessionType := .waitForHashLock, postOp := popSwitchSessionType } }, []) := by
    intro ht
    unfold SessionCell.step SessionCell.ready Session.ready Session.step
    rcases ht with ht | ht <;> rw [ht] <;> rcases ha with ha | ha <;> rw [ha] <;> rfl
  have hne : c.session.sessionType = .new ∨ c.session.sessionType = .noFd →
      c.requested a = { c.requested a with mco := .start } := by
    intro ht
    unfold SessionCell.requested
    rcases ht with ht | ht <;> rw [ht] <;> rfl
  rcases hf with ht | ht | ⟨ht, hlc, hw⟩
  · rw [SessionCell.act_switch rfl (hnew (Or.inl ht)) wantsSwitch_switchSessionType,
      hne (Or.inl ht)]
    rfl
  · rw [SessionCell.act_switch rfl (hnew (Or.inr ht)) wantsSwitch_switchSessionType,
      hne (Or.inr ht)]
    rfl
  · rw [SessionCell.act_stay (SessionCell.step_hashLockStart (c := c.ready) ht hlc hw)
      wantsSwitch_noOp]
    unfold SessionCell.requested
    rw [if_pos ht]
    obtain ⟨s, wait, mco⟩ := c
    simp only at ht hlc
    simp [SessionCell.ready, Session.ready, HashLockPt.start, ht, hlc]

theorem SessionCell.Executing.step (he : c.Executing) (ha : a.IsLockRequest) :
    ∃ c', c.ready.step a = .ok (c', []) ∧ c'.session.sessionType = .waitForHashLock
      ∧ c'.session.postOp = if a.action = .hashLockRead then 5 else popSwitchSessionType := by
  unfold SessionCell.step SessionCell.ready Session.ready Session.step
  rcases he with ⟨ht, hlc⟩ | ⟨ht, hlc, hw⟩
  · rw [ht]
    dsimp only
    unfold esqPtOfSingleShotSocket
    rw [hlc]
    rcases ha with ha | ha <;> rw [ha] <;> exact ⟨_, rfl, rfl, rfl⟩
  · rw [ht]
    dsimp only
    rw [if_pos hlc]
    unfold esqPtOfHashLock
    rw [hw]
    rcases ha with ha | ha <;> rw [ha] <;> exact ⟨_, rfl, rfl, rfl⟩

theorem SessionCell.Executing.act_write (he : c.Executing) (ha : a.action = .hashLockWrite) :
    ∃ c', c.act a = .ok (c', []) ∧ c'.session.postOp = popNoOp := by
  obtain ⟨c', hstep, ht, hop⟩ := he.step (Or.inr ha)
  rw [ha] at hop
  exact ⟨_, SessionCell.act_switch ht hstep (hop ▸ wantsSwitch_switchSessionType), rfl⟩

theorem SessionCell.Executing.act_read (he : c.Executing) (ha : a.action = .hashLockRead) :
    ∃ c', c.act a = .ok (c', []) ∧ c'.session.postOp = 5 := by
  obtain ⟨c', hstep, -, hop⟩ := he.step (Or.inl ha)
  rw [if_pos ha] at hop
  refine ⟨c', SessionCell.act_stay hstep ?_, hop⟩
  rw [hop]
  decide

theorem SessionCell.step_idle (call : LockCall) (words : StackWords) (hf : ¬ c.Fresh)
    (he : ¬ c.Executing) :
    c.ready.step (call.readAction words) = c.ready.step (call.writeAction words)
      ∧ ∀ c' es, c.ready.step (call.writeAction words) = .ok (c', es) →
        wantsSwitch c'.session.postOp = false := by
  unfold SessionCell.Fresh at hf
  unfold SessionCell.Executing at he
  unfold SessionCell.step SessionCell.ready Session.ready LockCall.readAction LockCall.writeAction
  cases ht : c.session.sessionType with
  | new => exact absurd (Or.inl ht) hf
  | noFd => exact absurd (Or.inr (Or.inl ht)) hf
  | socketCb =>
    dsimp only [Session.step]
    unfold esqPtOfSingleShotSocket
    cases hlc : c.session.lc with
    | start => exact ⟨rfl, by rintro _ _ ⟨⟩; exact wantsSwitch_noOp⟩
    | single l =>
      cases l with
      | executeCb => exact absurd (Or.inl ⟨ht, hlc⟩) he
      | _ => exact ⟨rfl, by rintro _ _ ⟨⟩⟩
    | multi l => exact ⟨rfl, by rintro _ _ ⟨⟩; exact wantsSwitch_noOp⟩
  | multiSocketCb =>
    dsimp only [Session.step]
    unfold esqPtOfMultiShotSocket
    cases hlc : c.session.lc with
    | start => exact ⟨rfl, by rintro _ _ ⟨⟩; exact wantsSwitch_noOp⟩
    | single l => exact ⟨rfl, by rintro _ _ ⟨⟩; exact wantsSwitch_noOp⟩
    | multi l => cases l <;> exact ⟨rfl, by rintro _ _ ⟨⟩⟩
  | mco =>
    dsimp only
    unfold esqPtOfMco
    cases hlc : c.mco with
    | start => exact ⟨rfl, by rintro _ _ ⟨⟩; exact wantsSwitch_returnValue⟩
    | _ => exact ⟨rfl, by rintro _ _ ⟨⟩⟩
  | waitForHashLock =>
    dsimp only
    by_cases hlc : c.session.lc = .start
    · rw [if_pos hlc, if_pos hlc]
      unfold esqPtOfHashLock
      cases hw : c.wait.lc with
      | start => exact absurd (Or.inr (Or.inr ⟨ht, hlc, hw⟩)) hf
      | executeCb => exact absurd (Or.inr ⟨ht, hlc, hw⟩) he
      | _ => exact ⟨rfl, by rintro _ _ ⟨⟩⟩
    · rw [if_neg hlc, if_neg hlc]
      exact ⟨rfl, by rintro _ _ ⟨⟩; exact wantsSwitch_noOp⟩

theorem SessionCell.act_read_eq_act_write (hf : ¬ c.Fresh) (he : ¬ c.Executing) :
    c.act (call.readAction words) = c.act (call.writeAction words) := by
  obtain ⟨heq, hsw⟩ := SessionCell.step_idle call words hf he
  unfold SessionCell.act
  rw [heq]
  cases hstep : c.ready.step (call.writeAction words) with
  | error e => rfl
  | ok r =>
    obtain ⟨c', es⟩ := r
    rw [ok_bind, ok_bind]
    dsimp only
    rw [hsw c' es hstep, if_neg Bool.false_ne_true, if_neg Bool.false_ne_true]

end

/-! ## 要求の結果 -/

section

variable {h hr hw : Heap} {x : Nat} {c c' : SessionCell} {call : LockCall} {words : StackWords}

theorem esqHashLockRead_eq (hc : ¬ call.timeoutS < -1) (hm : (h.session x).magic = true) :
    esqHashLockRead h x call words = ((h.cell x).act (call.readAction words)).bind
      fun r => (h.commit x r.1 r.2).postActions x := by
  unfold esqHashLockRead
  rw [if_neg hc, Heap.esqSessionTakeAction_eq hm]

theorem esqHashLockWrite_eq (hc : ¬ call.timeoutS < -1) (hm : (h.session x).magic = true) :
    esqHashLockWrite h x call words = ((h.cell x).act (call.writeAction words)).bind
      fun r => (h.commit x r.1 r.2).postActions x := by
  unfold esqHashLockWrite
  rw [if_neg hc, Heap.esqSessionTakeAction_eq hm]

theorem magic_of_esqHashLockWrite (hw : esqHashLockWrite h x call words = .ok (esqOk, hr)) :
    ¬ call.timeoutS < -1 ∧ (h.session x).magic = true := by
  unfold esqHashLockWrite at hw
  split at hw
  · cases hw
  next hc =>
    refine ⟨hc, ?_⟩
    by_contra hm
    rw [Heap.esqSessionTakeAction_of_not_magic (Bool.eq_false_iff.mpr hm)] at hw
    cases hw

theorem Heap.postActions_noOp (hop : (h.session x).postOp = popNoOp) :
    h.postActions x = .ok (esqOk, h) := by
  unfold Heap.postActions
  rw [hop]
  rfl

theorem SessionCell.eraseMode_requested_iff (call : LockCall) (words : StackWords) :
    (c.requested (call.readAction words)).eraseMode
      = (c.requested (call.writeAction words)).eraseMode ↔ words.timeoutms = 0 := by
  constructor
  · intro heq
    have := congrArg (fun c => c.session.timeoutms) heq
    exact this
  · intro h0
    unfold SessionCell.requested LockCall.readAction LockCall.writeAction
    rw [h0]
    rfl

theorem Heap.sameExceptMode_commit :
    SameExceptMode (h.commit x c []) (h.commit x c' []) ↔ c.eraseMode = c'.eraseMode := by
  constructor
  · intro hs
    have := hs.cell x
    rwa [Heap.commit_cell_self, Heap.commit_cell_self] at this
  · intro he
    refine ⟨fun y => ?_, rfl, rfl⟩
    by_cases hy : y = x
    · subst hy
      rw [Heap.commit_cell_self, Heap.commit_cell_self, he]
    · rw [Heap.commit_cell_of_ne hy, Heap.commit_cell_of_ne hy]

theorem Heap.ended_mem_postActions {r : Int} (hop : (h.session x).postOp = 5)
    (hp : h.postActions x = .ok (r, hr)) : ∃ es, hr.log = h.log ++ .ended x :: es := by
  unfold Heap.postActions at hp
  rw [hop] at hp
  obtain ⟨u, hu, hp⟩ := bind_eq_ok.mp (show h.freeSession x >>= _ = _ from hp)
  obtain ⟨-, rfl⟩ := Prod.mk.inj (Except.ok.inj hp)
  obtain ⟨es, hes⟩ := Heap.freeSession_log hu
  exact ⟨es, hes⟩

/--
**書きの要求が受け付けられる session で、読みの要求が同じ結果になる条件。**

callback が動いていると、読みの要求は session を終わらせる。引数を写すときは、
読みの要求が埋めない `timeoutms` が 0 でなければならない。
-/
theorem hash_lock_read_like_write (hw : Heap)
    (hwrite : esqHashLockWrite h x call words = .ok (esqOk, hw)) :
    (∃ hr, esqHashLockRead h x call words = .ok (esqOk, hr) ∧ SameExceptMode hr hw)
      ↔ ReadLikeWrite (h.cell x) words := by
  obtain ⟨hc, hm⟩ := magic_of_esqHashLockWrite hwrite
  rw [esqHashLockWrite_eq hc hm] at hwrite
  rw [esqHashLockRead_eq hc hm]
  by_cases he : (h.cell x).Executing
  · -- 書きの要求は記録を残さず、読みの要求は `ended` を残す
    obtain ⟨cw, hactw, hopw⟩ := he.act_write (a := call.writeAction words) rfl
    obtain ⟨cr, hactr, hopr⟩ := he.act_read (a := call.readAction words) rfl
    rw [hactw] at hwrite
    have hww : (h.commit x cw []).postActions x = .ok (esqOk, hw) := hwrite
    rw [Heap.postActions_noOp (by rw [Heap.commit_session_self, hopw])] at hww
    obtain ⟨-, rfl⟩ := Prod.mk.inj (Except.ok.inj hww)
    constructor
    · rintro ⟨hr, hread, hsame⟩
      rw [hactr] at hread
      obtain ⟨es, hes⟩ := Heap.ended_mem_postActions
        (by rw [Heap.commit_session_self, hopr]) hread
      have hlog := hsame.log
      rw [hes] at hlog
      have hlen := congrArg List.length hlog
      simp [Heap.commit] at hlen
    · exact fun hl => absurd he hl.idle
  by_cases hf : (h.cell x).Fresh
  · rw [hf.act (Or.inr rfl)] at hwrite
    have hww : (h.commit x ((h.cell x).requested (call.writeAction words)) []).postActions x
        = .ok (esqOk, hw) := hwrite
    rw [Heap.postActions_noOp (by rw [Heap.commit_session_self]; rfl)] at hww
    obtain ⟨-, rfl⟩ := Prod.mk.inj (Except.ok.inj hww)
    rw [hf.act (Or.inl rfl)]
    show (∃ hr, (h.commit x ((h.cell x).requested (call.readAction words)) []).postActions x
      = .ok (esqOk, hr) ∧ _) ↔ _
    rw [Heap.postActions_noOp (by rw [Heap.commit_session_self]; rfl)]
    have hiff := (Heap.sameExceptMode_commit (h := h) (x := x)).trans
      (SessionCell.eraseMode_requested_iff (c := h.cell x) call words)
    constructor
    · rintro ⟨hr, hread, hsame⟩
      obtain ⟨-, rfl⟩ := Prod.mk.inj (Except.ok.inj hread)
      exact ⟨he, fun _ => hiff.mp hsame⟩
    · exact fun hl => ⟨_, rfl, hiff.mpr (hl.timeoutms hf)⟩
  · rw [SessionCell.act_read_eq_act_write hf he, hwrite]
    exact ⟨fun _ => ⟨he, fun h' => absurd h' hf⟩, fun _ => ⟨hw, rfl, ⟨fun _ => rfl, rfl, rfl⟩⟩⟩

end

/-- 作ったばかりの session では、埋めない `timeoutms` が 0 なら同じ結果になる。 -/
theorem hash_lock_read_like_write_new_session :
    ∃ hw, esqHashLockWrite (Heap.init.esqSessionNew 0) 0 ⟨3, 1, 0, 5⟩ ⟨7, 0⟩ = .ok (esqOk, hw)
      ∧ ∃ hr, esqHashLockRead (Heap.init.esqSessionNew 0) 0 ⟨3, 1, 0, 5⟩ ⟨7, 0⟩ = .ok (esqOk, hr)
        ∧ SameExceptMode hr hw :=
  ⟨_, rfl, (hash_lock_read_like_write _ rfl).mpr ⟨by decide, fun _ => rfl⟩⟩

def Heap.drive (h : Heap) (x : Nat) : List ChassisAction → Except Fault Heap
  | [] => .ok h
  | a :: as => do
    let (_, h) ← h.esqSessionTakeAction x a
    h.drive x as

/-- 親の無い session 0 が、fd 5 に届いた event の callback を動かしている。 -/
def singleShotCallback : Except Fault Heap :=
  (Heap.init.esqSessionNew 0).drive 0
    [{ action := .addSockFdSingle { fd := 5, expEventBits := 8, timeouts := 10, cb := 1 } },
      { action := .windUp }, { action := .pickUp }, { action := .notifyEvent esqEventBitRead },
      { action := .executeCb }]

/--
その callback の中で、書きの要求は hash lock の session を残し、読みの要求は session を解放する。
-/
theorem hash_lock_read_in_callback_frees :
    ∃ h hw hr, singleShotCallback = .ok h
      ∧ esqHashLockWrite h 0 ⟨3, 1, 0, 5⟩ ⟨7, 0⟩ = .ok (esqOk, hw)
      ∧ esqHashLockRead h 0 ⟨3, 1, 0, 5⟩ ⟨7, 0⟩ = .ok (esqOk, hr)
      ∧ (hw.session 0).magic = true ∧ (hr.session 0).magic = false
      ∧ hw.allocated 0 = true ∧ hr.allocated 0 = false
      ∧ ¬ ∃ hr', esqHashLockRead h 0 ⟨3, 1, 0, 5⟩ ⟨7, 0⟩ = .ok (esqOk, hr')
        ∧ SameExceptMode hr' hw := by
  refine ⟨_, _, _, rfl, rfl, rfl, rfl, rfl, rfl, rfl, ?_⟩
  rintro ⟨hr', hread, hsame⟩
  cases hread
  have hfreed := congrFun hsame.allocated 0
  exact absurd hfreed (by decide)

end Esq
