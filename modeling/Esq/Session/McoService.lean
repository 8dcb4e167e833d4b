import Esq.Infra.Coroutine
import Esq.Infra.Run
import Esq.Session.McoWorker
import Esq.Session.Solo

/-!
# coroutine を動かす session

`mco/mco.c` と、`session/worker.c` の `esq_worker_execute_session`。coroutine は OS を呼びながら進み、
`esq_session_set_socket_fd` で fd を仕掛けて `mco_yield` で手放す。手放すか終わると worker が
`esq_session_wind_up` を呼ぶ。待っている間に届いた event は session を起こし、worker は
`ACTION_EXECUTE_CB` を渡してから coroutine を再開する。

fd を仕掛けた直後に必ず手放す coroutine（`Co.Gated ok armsSocketFd`）は、`INVALID_ACTION_TYPE` にも
`esq_design_error` にも着かない。先に仕掛けておくこと（`FdParams.upFront`）に成功した coroutine は
`__execute_cb_installed_socket_fd` から出られず、終わることも仕掛け直すこともできない。

* `CoPhase.step` — 先に仕掛けることに成功しない一歩は、状態機械に受け付けられる
* `HeldArmed.step` — 先に仕掛けた後の一歩は、仕掛けたままにするか `INVALID_ACTION_TYPE` に着く
-/

namespace Esq

open Infra

/-! ## 状態 -/

structure OsResult where
  r : Int
  bytes : List UInt8 := []
deriving DecidableEq, Repr

/-- coroutine の問い合わせ。`C` は OS の呼び出しの種類である。 -/
inductive McoCall (C : Type) where
  | os (c : C)
  /-- `esq_session_set_socket_fd` -/
  | setSocketFd (params : FdParams)

/-- READ と WRITE を共に待つ。読み書きの前に仕掛けておくときの形である。 -/
def FdParams.upFront (params : FdParams) : Prop :=
  params.expEventBits = orBits esqEventBitRead esqEventBitWrite

/-- 読み書きの途中で fd を仕掛けることに成功した。 -/
def armsSocketFd {C : Type} : McoCall C → OsResult → Prop
  | .os _, _ => False
  | .setSocketFd params, res => ¬ params.upFront ∧ res.r = 0

/-- session と、その coroutine のこれからの動き。`running` は coroutine が動いていることを表す。 -/
structure CoSession (C : Type) where
  session : Session
  lc : McoLabel
  running : Bool
  co : Co (McoCall C) OsResult Unit

inductive CoInput where
  /-- `esq_start_mco_session` の `esq_session_wind_up` -/
  | start
  /-- worker が active list から選んで再開する -/
  | execute
  /-- coroutine が一つ進む。`os` は `esq_os_events_*` の戻り値 -/
  | proceed (result : OsResult) (os : Int)
  /-- event が届く -/
  | notify (action : Action)
deriving DecidableEq, Repr

namespace CoSession

variable {C : Type}

/-- `esq_session_new` と `esq_session_init_mco_params` の直後。 -/
def new (co : Co (McoCall C) OsResult Unit) : CoSession C where
  session := { esqSessionNew with sessionType := .mco }
  lc := .start
  running := false
  co := co

def take (st : CoSession C) (a : McoAction) : Except Fault (Int × CoSession C) := do
  let (p, lc) ← st.session.ready.stepMco st.lc a
  let (r, s) := p.session.settle
  .ok (r, { st with session := s, lc })

/-- 渡しうる event。timeout は待っている session にだけ渡る。 -/
def deliverable (st : CoSession C) : Action → Bool
  | .notifyEvent _ => st.session.magic && st.lc ≠ .start
  | .notifyExit => st.session.magic && st.lc ≠ .start
  | .notifyTimeout => st.session.magic && st.lc = .windedUp
  | _ => false

def proceed (st : CoSession C) (result : OsResult) (os : Int) : Except Fault (CoSession C) :=
  match st.co with
  | .done _ => do
    let (_, st) ← st.take { action := .windUp, os, isEnd := true }
    .ok { st with running := false }
  | .yield k => do
    let (_, st) ← st.take { action := .windUp, os, isEnd := false }
    .ok { st with running := false, co := k }
  | .ask (.os _) k => .ok { st with co := k result }
  | .ask (.setSocketFd params) k => do
    let (r, st) ← st.take { action := .addSockFdSingle params, os, isEnd := false }
    .ok { st with co := k { r } }
  -- プロセスはもう終わっている
  | .abort => .ok st

end CoSession

section

variable {C : Type}

/-- 一つの入力。起こりえない入力は何も変えない。 -/
def coStep (st : CoSession C) : CoInput → Except Fault (CoSession C)
  | .start =>
    if st.lc = .start then do
      let (_, st) ← st.take { action := .windUp }
      .ok st
    else .ok st
  | .execute =>
    if st.running = false ∧ st.lc = .active then do
      let (_, st) ← st.take { action := .executeCb }
      .ok { st with running := true }
    else .ok st
  | .proceed result os => if st.running then st.proceed result os else .ok st
  | .notify action =>
    if st.deliverable action then do
      let (_, st) ← st.take { action }
      .ok st
    else .ok st

def coStep? (st : CoSession C) (i : CoInput) : Option (CoSession C) := (coStep st i).toOption

/-- 読み書きの前に fd を仕掛けるなら、それは失敗する。 -/
def CoSession.good (st : CoSession C) : CoInput → Prop
  | .proceed _ os => match st.co with
    | .ask (.setSocketFd params) _ =>
      st.running = true → params.upFront → fdNeedInstall params.fd ∧ os ≠ 0
    | _ => True
  | _ => True

theorem coStep_proceed {st : CoSession C} (hrun : st.running = true) (result : OsResult)
    (os : Int) : coStep st (.proceed result os) = st.proceed result os := if_pos hrun

/-! ## 進み方 -/

inductive CoPhase (ok : McoCall C → Prop) (st : CoSession C) : Prop where
  | start (hm : st.session.magic = true) (ht : st.session.sessionType = .mco)
    (hlc : st.lc = .start) (hrun : st.running = false) (hco : st.co.Gated ok armsSocketFd)
  /-- 待っている -/
  | resting (hm : st.session.magic = true) (ht : st.session.sessionType = .mco)
    (hlc : st.lc = .active ∨ st.lc = .windedUp) (hrun : st.running = false)
    (hco : st.co.Gated ok armsSocketFd)
  | running (hm : st.session.magic = true) (ht : st.session.sessionType = .mco)
    (hlc : st.lc = .executeCb) (hrun : st.running = true) (hco : st.co.Gated ok armsSocketFd)
  /-- fd を仕掛けて、手放す所 -/
  | armed (hm : st.session.magic = true) (ht : st.session.sessionType = .mco)
    (hlc : st.lc = .executeCbInstalledSocketFd) (hrun : st.running = true)
    (hco : ∃ k, st.co = .yield k ∧ k.Gated ok armsSocketFd)
  | ended (hm : st.session.magic = false) (hlc : st.lc = .executeCb) (hrun : st.running = false)

structure HeldArmed (ok : McoCall C → Prop) (st : CoSession C) : Prop where
  magic : st.session.magic = true
  type : st.session.sessionType = .mco
  lc : st.lc = .executeCbInstalledSocketFd
  running : st.running = true
  co : st.co.Gated ok armsSocketFd

structure Took (st st' : CoSession C) (lc : McoLabel) : Prop where
  magic : st'.session.magic = st.session.magic
  type : st'.session.sessionType = st.session.sessionType
  lc : st'.lc = lc
  running : st'.running = st.running
  co : st'.co = st.co

section

variable {st st' : CoSession C} {a : McoAction} {p : PtRun} {lc : McoLabel}
  {ok : McoCall C → Prop}

theorem take_eq (ht : st.session.sessionType = .mco)
    (hp : esqPtOfMco st.session.ready st.lc a.action a.os a.isEnd = .ok (p, lc)) :
    st.take a = .ok (p.session.settle.1, { st with session := p.session.settle.2, lc }) := by
  unfold CoSession.take Session.stepMco
  rw [if_pos (show st.session.ready.sessionType = .mco from ht), hp]
  rfl

theorem take_noOp (ht : st.session.sessionType = .mco)
    (hp : esqPtOfMco st.session.ready st.lc a.action a.os a.isEnd = .ok (p, lc))
    (hop : p.session.postOp = popNoOp) (hm : p.session.magic = st.session.magic)
    (ht' : p.session.sessionType = st.session.sessionType) :
    ∃ r st', st.take a = .ok (r, st') ∧ Took st st' lc := by
  refine ⟨_, _, take_eq ht hp, ?_⟩
  rw [Session.settle_noOp hop]
  exact ⟨hm, ht', rfl, rfl, rfl⟩

theorem take_returnValue (ht : st.session.sessionType = .mco)
    (hp : esqPtOfMco st.session.ready st.lc a.action a.os a.isEnd = .ok (p, lc))
    (hop : p.session.postOp = popReturnValue) (hm : p.session.magic = st.session.magic)
    (ht' : p.session.sessionType = st.session.sessionType) :
    ∃ st', st.take a = .ok (p.session.r, st') ∧ Took st st' lc := by
  have h := take_eq ht hp
  rw [Session.settle_returnValue hop] at h
  exact ⟨_, h, hm, ht', rfl, rfl, rfl⟩

theorem take_error (ht : st.session.sessionType = .mco) {e : Fault}
    (hp : esqPtOfMco st.session.ready st.lc a.action a.os a.isEnd = .error e) :
    st.take a = .error e := by
  unfold CoSession.take Session.stepMco
  rw [if_pos (show st.session.ready.sessionType = .mco from ht), hp]
  rfl

theorem take_notify {action : Action} (ht : st.session.sessionType = .mco)
    (h : st.deliverable action = true)
    (hlc : st.lc = .active ∨ st.lc = .executeCb ∨ st.lc = .executeCbInstalledSocketFd) :
    ∃ r st', st.take { action } = .ok (r, st') ∧ Took st st' st.lc := by
  unfold CoSession.deliverable at h
  rcases hlc with hlc | hlc | hlc
  · rw [hlc] at h ⊢
    split at h
    · exact take_noOp ht (by rw [hlc]; rfl) rfl rfl rfl
    · exact take_noOp ht (by rw [hlc]; rfl) rfl rfl rfl
    · simp at h
    · cases h
  · rw [hlc] at h ⊢
    split at h
    · exact take_noOp ht (by rw [hlc]; rfl) rfl rfl rfl
    · exact take_noOp ht (by rw [hlc]; rfl) rfl rfl rfl
    · simp at h
    · cases h
  · rw [hlc] at h ⊢
    split at h
    · exact take_noOp ht (by rw [hlc]; rfl) rfl rfl rfl
    · exact take_noOp ht (by rw [hlc]; rfl) rfl rfl rfl
    · simp at h
    · cases h

theorem take_wake {action : Action} (ht : st.session.sessionType = .mco)
    (h : st.deliverable action = true) (hlc : st.lc = .windedUp) :
    ∃ r st', st.take { action } = .ok (r, st') ∧ Took st st' .active := by
  unfold CoSession.deliverable at h
  split at h
  · exact take_noOp ht (by rw [hlc]; rfl) rfl rfl rfl
  · exact take_noOp ht (by rw [hlc]; rfl) rfl rfl rfl
  · exact take_noOp ht (by rw [hlc]; rfl) rfl rfl rfl
  · cases h

theorem take_addSockFd (params : FdParams) (os : Int) (ht : st.session.sessionType = .mco)
    (hlc : st.lc = .executeCb) :
    ∃ r st' lc, st.take { action := .addSockFdSingle params, os, isEnd := false } = .ok (r, st')
      ∧ Took st st' lc ∧ ((fdNeedInstall params.fd ∧ os ≠ 0 ∧ r = os ∧ lc = .executeCb)
        ∨ (¬ (fdNeedInstall params.fd ∧ os ≠ 0) ∧ r = esqOk
          ∧ lc = .executeCbInstalledSocketFd)) := by
  by_cases hfd : fdNeedInstall params.fd
  · by_cases hos : os = 0
    · subst hos
      obtain ⟨st', h, htook⟩ := take_returnValue (a := { action := .addSockFdSingle params })
        ht (by rw [hlc]; simp only [esqPtOfMco, McoPt.executeCb, if_pos hfd]; rfl) rfl rfl rfl
      exact ⟨_, st', _, h, htook, Or.inr ⟨fun h => h.2 rfl, rfl, rfl⟩⟩
    · obtain ⟨st', h, htook⟩ := take_returnValue (a := { action := .addSockFdSingle params, os })
        ht (by
          rw [hlc]
          simp only [esqPtOfMco, McoPt.executeCb, if_pos hfd, ne_eq, hos, not_false_eq_true,
            if_true]
          rfl) rfl rfl rfl
      exact ⟨_, st', _, h, htook, Or.inl ⟨hfd, hos, rfl, rfl⟩⟩
  · obtain ⟨st', h, htook⟩ := take_returnValue (a := { action := .addSockFdSingle params, os })
      ht (by rw [hlc]; simp only [esqPtOfMco, McoPt.executeCb, if_neg hfd]; rfl) rfl rfl rfl
    exact ⟨_, st', _, h, htook, Or.inr ⟨fun h => hfd h.1, rfl, rfl⟩⟩

theorem take_windUp (os : Int) (ht : st.session.sessionType = .mco)
    (hlc : st.lc = .executeCbInstalledSocketFd) :
    ∃ r st' lc, st.take { action := .windUp, os, isEnd := false } = .ok (r, st')
      ∧ Took st st' lc ∧ (lc = .active ∨ lc = .windedUp) := by
  by_cases hbits : st.session.eventBits2 ≠ 0
  · have hbits' : st.session.ready.eventBits2 ≠ 0 := hbits
    obtain ⟨r, st', h, htook⟩ := take_noOp (a := { action := .windUp, os }) ht (by
      rw [hlc]
      simp only [esqPtOfMco, McoPt.executeCbInstalledSocketFd, if_pos hbits', Bool.false_eq_true,
        if_false]
      rfl) rfl rfl rfl
    exact ⟨r, st', _, h, htook, Or.inl rfl⟩
  · have hbits' : ¬ st.session.ready.eventBits2 ≠ 0 := hbits
    obtain ⟨r, st', h, htook⟩ := take_noOp (a := { action := .windUp, os }) ht (by
      rw [hlc]
      simp only [esqPtOfMco, McoPt.executeCbInstalledSocketFd, if_neg hbits', Bool.false_eq_true,
        if_false]
      rfl) rfl rfl rfl
    exact ⟨r, st', _, h, htook, Or.inr rfl⟩

theorem take_end (os : Int) (ht : st.session.sessionType = .mco) (hlc : st.lc = .executeCb) :
    ∃ r st', st.take { action := .windUp, os, isEnd := true } = .ok (r, st')
      ∧ st'.session.magic = false ∧ st'.lc = .executeCb := by
  have h := take_eq (a := { action := .windUp, os, isEnd := true }) ht (by rw [hlc]; rfl)
  rw [Session.settle_freeSession rfl] at h
  exact ⟨_, _, h, rfl, rfl⟩

theorem CoPhase.proceed (h : CoPhase ok st) (hrun : st.running = true) {result : OsResult} {os : Int}
    (hgood : st.good (.proceed result os)) : ∃ st', st.proceed result os = .ok st' ∧ CoPhase ok st' := by
  unfold CoSession.proceed
  cases h with
  | start hm ht hlc hrun' hco => rw [hrun] at hrun'; cases hrun'
  | resting hm ht hlc hrun' hco => rw [hrun] at hrun'; cases hrun'
  | ended hm hlc hrun' => rw [hrun] at hrun'; cases hrun'
  | running hm ht hlc hrun' hco =>
    cases hq : st.co with
    | done a =>
      obtain ⟨r, st', htake, hm', hlc'⟩ := take_end os ht hlc
      dsimp only
      rw [htake, ok_bind]
      exact ⟨_, rfl, .ended hm' hlc' rfl⟩
    | yield k =>
      rw [hq] at hco
      exact absurd hco Co.Gated.not_yield
    | abort => exact ⟨st, rfl, .running hm ht hlc hrun hco⟩
    | ask q k =>
      rw [hq] at hco
      cases q with
      | os c =>
        refine ⟨_, rfl, .running hm ht hlc hrun ?_⟩
        rcases hco.of_ask result with ⟨hf, -⟩ | ⟨-, hk⟩
        · exact hf.elim
        · exact hk
      | setSocketFd params =>
        unfold CoSession.good at hgood
        rw [hq] at hgood
        obtain ⟨r, st', lc, htake, htook, hres⟩ := take_addSockFd params os ht hlc
        dsimp only
        rw [htake, ok_bind]
        refine ⟨_, rfl, ?_⟩
        have hm' := htook.magic.trans hm
        have ht' := htook.type.trans ht
        have hrun' := htook.running.trans hrun
        rcases hco.of_ask { r } with ⟨⟨hup, hr⟩, next, hnext, hgated⟩ | ⟨hno, hk⟩
        · rcases hres with ⟨-, hos, rfl, -⟩ | ⟨-, -, rfl⟩
          · exact absurd hr hos
          · exact .armed hm' ht' htook.lc hrun' ⟨next, hnext, hgated⟩
        · rcases hres with ⟨-, -, -, rfl⟩ | ⟨hsucc, rfl, -⟩
          · exact .running hm' ht' htook.lc hrun' hk
          · -- 成功したのに手放さないのは、先に仕掛けたときだけである
            refine absurd (hgood hrun ?_) hsucc
            by_contra hup
            exact hno ⟨hup, rfl⟩
  | armed hm ht hlc hrun' hco =>
    obtain ⟨k, hk, hgated⟩ := hco
    obtain ⟨r, st', lc, htake, htook, hres⟩ := take_windUp os ht hlc
    rw [hk]
    dsimp only
    rw [htake, ok_bind]
    exact ⟨_, rfl, .resting (htook.magic.trans hm) (htook.type.trans ht)
      (by rw [htook.lc]; exact hres) rfl hgated⟩

theorem CoPhase.notify (h : CoPhase ok st) {action : Action}
    (hdel : st.deliverable action = true) :
    ∃ r st', st.take { action } = .ok (r, st') ∧ CoPhase ok st' := by
  cases h with
  | start hm ht hlc hrun hco =>
    unfold CoSession.deliverable at hdel
    rw [hlc] at hdel
    split at hdel <;> simp at hdel
  | ended hm hlc hrun =>
    unfold CoSession.deliverable at hdel
    rw [hm] at hdel
    split at hdel <;> simp at hdel
  | resting hm ht hlc hrun hco =>
    rcases hlc with hlc | hlc
    · obtain ⟨r, st', htake, htook⟩ := take_notify ht hdel (Or.inl hlc)
      exact ⟨r, st', htake, .resting (htook.magic.trans hm) (htook.type.trans ht)
        (Or.inl (htook.lc.trans hlc)) (htook.running.trans hrun) (by rw [htook.co]; exact hco)⟩
    · obtain ⟨r, st', htake, htook⟩ := take_wake ht hdel hlc
      exact ⟨r, st', htake, .resting (htook.magic.trans hm) (htook.type.trans ht)
        (Or.inl htook.lc) (htook.running.trans hrun) (by rw [htook.co]; exact hco)⟩
  | running hm ht hlc hrun hco =>
    obtain ⟨r, st', htake, htook⟩ := take_notify ht hdel (Or.inr (Or.inl hlc))
    exact ⟨r, st', htake, .running (htook.magic.trans hm) (htook.type.trans ht)
      (htook.lc.trans hlc) (htook.running.trans hrun) (by rw [htook.co]; exact hco)⟩
  | armed hm ht hlc hrun hco =>
    obtain ⟨r, st', htake, htook⟩ := take_notify ht hdel (Or.inr (Or.inr hlc))
    exact ⟨r, st', htake, .armed (htook.magic.trans hm) (htook.type.trans ht)
      (htook.lc.trans hlc) (htook.running.trans hrun) (by rw [htook.co]; exact hco)⟩

/-- **先に仕掛けることに成功しない一歩は、状態機械に受け付けられる。** -/
theorem CoPhase.step (h : CoPhase ok st) {i : CoInput} (hgood : st.good i) :
    ∃ st', coStep st i = .ok st' ∧ CoPhase ok st' := by
  cases i with
  | start =>
    simp only [coStep]
    split
    · next hlc =>
      cases h with
      | start hm ht hlc' hrun hco =>
        obtain ⟨st', htake, htook⟩ := take_returnValue (a := { action := .windUp }) ht
          (by rw [hlc]; rfl) rfl rfl rfl
        refine ⟨st', by rw [htake]; rfl, .resting (htook.magic.trans hm) (htook.type.trans ht)
          (Or.inl htook.lc) (htook.running.trans hrun) (by rw [htook.co]; exact hco)⟩
      | resting hm ht hlc' => rcases hlc' with hlc' | hlc' <;> rw [hlc'] at hlc <;> cases hlc
      | running hm ht hlc' => rw [hlc'] at hlc; cases hlc
      | armed hm ht hlc' => rw [hlc'] at hlc; cases hlc
      | ended hm hlc' => rw [hlc'] at hlc; cases hlc
    · exact ⟨st, rfl, h⟩
  | execute =>
    simp only [coStep]
    split
    · next hcond =>
      obtain ⟨hrun, hlc⟩ := hcond
      cases h with
      | resting hm ht hlc' hrun' hco =>
        obtain ⟨st', htake, htook⟩ := take_returnValue (a := { action := .executeCb }) ht
          (by rw [hlc]; rfl) rfl rfl rfl
        refine ⟨{ st' with running := true }, by rw [htake]; rfl, .running
          (htook.magic.trans hm) (htook.type.trans ht) htook.lc rfl (by
            show st'.co.Gated ok armsSocketFd
            rw [htook.co]
            exact hco)⟩
      | start hm ht hlc' => rw [hlc'] at hlc; cases hlc
      | running hm ht hlc' => rw [hlc'] at hlc; cases hlc
      | armed hm ht hlc' => rw [hlc'] at hlc; cases hlc
      | ended hm hlc' => rw [hlc'] at hlc; cases hlc
    · exact ⟨st, rfl, h⟩
  | proceed result os =>
    simp only [coStep]
    split
    · next hrun => exact h.proceed hrun hgood
    · exact ⟨st, rfl, h⟩
  | notify action =>
    simp only [coStep]
    split
    · next hdel =>
      obtain ⟨r, st', htake, h'⟩ := h.notify hdel
      exact ⟨st', by rw [htake]; rfl, h'⟩
    · exact ⟨st, rfl, h⟩

theorem CoPhase.good (h : CoPhase ok st)
    (hok : ∀ params : FdParams, ok (.setSocketFd params) → ¬ params.upFront) (i : CoInput) :
    st.good i := by
  cases i with
  | proceed result os =>
    simp only [CoSession.good]
    split
    · next params k hq =>
      intro hrun hup
      have hco : st.co.Gated ok armsSocketFd := by
        cases h with
        | running hm ht hlc hrun' hco => exact hco
        | armed hm ht hlc hrun' hco =>
          obtain ⟨k', hk', -⟩ := hco
          rw [hq] at hk'
          cases hk'
        | start hm ht hlc hrun' hco => exact hco
        | resting hm ht hlc hrun' hco => exact hco
        | ended hm hlc hrun' =>
          rw [hrun] at hrun'
          cases hrun'
      rw [hq] at hco
      exact absurd hup (hok params hco.ok_of_ask)
    · trivial
  | _ => trivial

/-! ## 先に仕掛けた後 -/

/-- **先に仕掛けることに成功すると、手放さないまま `__execute_cb_installed_socket_fd` になる。** -/
theorem CoPhase.step_bad (h : CoPhase ok st) {i : CoInput} (hbad : ¬ st.good i) :
    ∃ st', coStep st i = .ok st' ∧ HeldArmed ok st' := by
  cases i with
  | proceed result os =>
    simp only [CoSession.good] at hbad
    split at hbad
    · next params k hq =>
      obtain ⟨hrun, hbad⟩ := Classical.not_imp.mp hbad
      obtain ⟨hup, hsucc⟩ := Classical.not_imp.mp hbad
      rw [coStep_proceed hrun]
      unfold CoSession.proceed
      rw [hq]
      cases h with
      | running hm ht hlc hrun' hco =>
        obtain ⟨r, st', lc, htake, htook, hres⟩ := take_addSockFd params os ht hlc
        dsimp only
        rw [htake, ok_bind]
        rcases hres with ⟨hfd, hos, -⟩ | ⟨-, -, rfl⟩
        · exact absurd ⟨hfd, hos⟩ hsucc
        · refine ⟨_, rfl, htook.magic.trans hm, htook.type.trans ht, htook.lc,
            htook.running.trans hrun, ?_⟩
          rw [hq] at hco
          rcases hco.of_ask { r } with ⟨⟨hno, -⟩, -⟩ | ⟨-, hk⟩
          · exact absurd hup hno
          · exact hk
      | start hm ht hlc hrun' => rw [hrun] at hrun'; cases hrun'
      | resting hm ht hlc hrun' => rw [hrun] at hrun'; cases hrun'
      | ended hm hlc hrun' => rw [hrun] at hrun'; cases hrun'
      | armed hm ht hlc hrun' hco =>
        obtain ⟨k', hk', -⟩ := hco
        rw [hq] at hk'
        cases hk'
    · exact absurd trivial hbad
  | _ => exact absurd trivial hbad

/-- **先に仕掛けた後の一歩は、仕掛けたままにするか、`INVALID_ACTION_TYPE` に着く。** -/
theorem HeldArmed.step (h : HeldArmed ok st) (i : CoInput) :
    coStep st i = .error .invalidActionType ∨ ∃ st', coStep st i = .ok st' ∧ HeldArmed ok st' := by
  have hlc := h.lc
  cases i with
  | start => exact Or.inr ⟨st, by unfold coStep; rw [hlc]; rfl, h⟩
  | execute =>
    refine Or.inr ⟨st, ?_, h⟩
    simp only [coStep]
    rw [if_neg (by rw [hlc]; simp)]
  | proceed result os =>
    rw [coStep_proceed h.running]
    unfold CoSession.proceed
    have hco := h.co
    cases hq : st.co with
    | done a =>
      left
      dsimp only
      rw [take_error h.type (e := .invalidActionType) (by rw [hlc]; rfl)]
      rfl
    | yield k =>
      rw [hq] at hco
      exact absurd hco Co.Gated.not_yield
    | abort => exact Or.inr ⟨st, rfl, h⟩
    | ask q k =>
      cases q with
      | os c =>
        refine Or.inr ⟨_, rfl, h.magic, h.type, h.lc, h.running, ?_⟩
        rw [hq] at hco
        rcases hco.of_ask result with ⟨hf, -⟩ | ⟨-, hk⟩
        · exact hf.elim
        · exact hk
      | setSocketFd params =>
        left
        dsimp only
        rw [take_error h.type (e := .invalidActionType) (by rw [hlc]; rfl)]
        rfl
  | notify action =>
    simp only [coStep]
    split
    · next hdel =>
      obtain ⟨r, st', htake, htook⟩ := take_notify h.type hdel (Or.inr (Or.inr hlc))
      refine Or.inr ⟨st', by rw [htake]; rfl, htook.magic.trans h.magic, htook.type.trans h.type,
        htook.lc.trans hlc, htook.running.trans h.running, by rw [htook.co]; exact h.co⟩
    · exact Or.inr ⟨st, rfl, h⟩

/-! ## run -/

theorem coStep?_eq_some {i : CoInput} : coStep? st i = some st' ↔ coStep st i = .ok st' := by
  unfold coStep?
  cases coStep st i <;> simp [Except.toOption]

theorem CoPhase.run (is : List CoInput) (h : CoPhase ok st)
    (hgood : Along coStep? CoSession.good st is) :
    ∃ st', is.foldlM coStep st = .ok st' ∧ CoPhase ok st' := by
  induction is generalizing st with
  | nil => exact ⟨st, rfl, h⟩
  | cons i is ih =>
    obtain ⟨st₁, hst₁, h₁⟩ := h.step hgood.1
    obtain ⟨st', hst', h'⟩ := ih h₁ (hgood.2 st₁ (coStep?_eq_some.mpr hst₁))
    exact ⟨st', by rw [List.foldlM_cons, hst₁]; exact hst', h'⟩

theorem CoPhase.along_good (is : List CoInput) (h : CoPhase ok st)
    (hok : ∀ params : FdParams, ok (.setSocketFd params) → ¬ params.upFront) :
    Along coStep? CoSession.good st is := by
  induction is generalizing st with
  | nil => trivial
  | cons i is ih =>
    have hgood := h.good hok i
    obtain ⟨st₁, hst₁, h₁⟩ := h.step hgood
    exact along_cons_of_eq (coStep?_eq_some.mpr hst₁) hgood (ih h₁)

theorem HeldArmed.run (is : List CoInput) (h : HeldArmed ok st)
    (hrun : is.foldlM coStep st = .ok st') : HeldArmed ok st' := by
  induction is generalizing st with
  | nil =>
    cases hrun
    exact h
  | cons i is ih =>
    rw [List.foldlM_cons] at hrun
    obtain ⟨st₁, hst₁, hrun⟩ := bind_eq_ok.mp hrun
    rcases h.step i with herr | ⟨st₂, hst₂, h₂⟩
    · rw [herr] at hst₁
      cases hst₁
    · rw [hst₂] at hst₁
      cases hst₁
      exact ih h₂ hrun

theorem CoPhase.run_ended (is : List CoInput) (h : CoPhase ok st)
    (hrun : is.foldlM coStep st = .ok st') (hend : st'.session.magic = false) :
    Along coStep? CoSession.good st is := by
  induction is generalizing st with
  | nil => trivial
  | cons i is ih =>
    rw [List.foldlM_cons] at hrun
    obtain ⟨st₁, hst₁, hrun⟩ := bind_eq_ok.mp hrun
    by_cases hgood : st.good i
    · obtain ⟨st₂, hst₂, h₂⟩ := h.step hgood
      rw [hst₂] at hst₁
      cases hst₁
      exact along_cons_of_eq (coStep?_eq_some.mpr hst₂) hgood (ih h₂ hrun)
    · obtain ⟨st₂, hst₂, h₂⟩ := h.step_bad hgood
      rw [hst₂] at hst₁
      cases hst₁
      have := (h₂.run is hrun).magic
      rw [hend] at this
      cases this

end

end

end Esq
