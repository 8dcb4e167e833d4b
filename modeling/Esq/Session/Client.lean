import Esq.Bee.Session
import Esq.H2esq.Session
import Esq.Infra.Run
import Esq.Session.Removal

/-!
# 接続の一生

bee と HTTP/2 の service が受けた接続に、session の仕組みが event を渡していく様子。
接続の session は `__winded_up` で poll の event、timeout、exit のどれかを待ち、
`__active` になったら callback が呼ばれる。

timeout と exit は `__remove_fd_then_active` を通り、そこで `session->fd` が 0 になる。
一方 `bee_session_receive_request`、`h2esq_session_fd_alpn_cb`、`h2esq_session_fd_sch_cb` は
event を見る前に `fd <= 0` で `esq_design_error()` を呼ぶ。`h2esq_session_fd_cb` だけが先に
event を見る。

* `clientInv_step` — この三つの callback を待つ間に timeout も exit も来なければ、
  fd は正のままである
* `client_callbacks_safe` — そのような run では、callback は必ず戻り、閉じる event なら接続を解放する
-/

namespace Esq

open Infra

/-! ## 接続 -/

inductive Service where
  | bee
  | h2
deriving DecidableEq, Repr

/-- 接続の session と、`user_param` の先にある接続の領域。 -/
structure Client where
  session : Session
  /-- bee の `bee_service_ctx_t` -/
  conn : BeeConn := {}
  /-- 領域に控えた、`accept` の返した fd -/
  clientFd : Int
deriving DecidableEq, Repr

/-- `esq_session_set_socket_fd` に渡す値。timeout は bee が 2 秒、HTTP/2 が 10 秒である。 -/
def Service.params (service : Service) (fd : Int) : FdParams where
  fd := fd
  expEventBits := esqEventBitReadWrite
  timeouts := match service with
    | .bee => 2
    | .h2 => 10
  cb := match service with
    | .bee => ServiceCb.beeSessionReceiveRequest.addr
    | .h2 => ServiceCb.h2esqSessionFdAlpnCb.addr

/-- 接続を受けて、session を大域の new list に繋ぐ所まで。 -/
def Client.accept (service : Service) (fd : Int) : Except Fault Client := do
  let (_, s) ← esqSessionSetSocketFd esqSessionNew (service.params fd)
  let (_, s') ← s.takeAction .windUpRr 0
  .ok { session := s', clientFd := fd }

/-! ## callback -/

/-- 一回の callback の間に OS とライブラリが返すもの。 -/
structure CbEnv where
  h2 : H2Env := {}
  /-- `recv_buf` の `malloc` -/
  malloc : Option (Nat → UInt8) := none
  sock : Sock := {}

def beeReceiveCb (c : Client) (env : CbEnv) : Except Fault (CbOutcome × Client) :=
  let s := c.session
  if s.fd ≤ 0 then .error .designError
  else
    let wake : Wake := { eventBits := s.eventBits, malloc := env.malloc, rearm := true }
    match (beeSessionReceiveRequest wake c.conn env.sock).1 with
    | .again conn => do
      let (out, s') ← s.rearm .beeSessionReceiveRequest esqEventBitRead 2 s.fd
      .ok (out, { c with session := s', conn })
    | _ => .ok (.released s.fd, c)

def Client.lift (c : Client) (r : Except Fault (CbOutcome × Session)) :
    Except Fault (CbOutcome × Client) := do
  let (out, s) ← r
  .ok (out, { c with session := s })

/-- `session->cb(session)`。知らない番地は呼べない。 -/
def Client.callback (c : Client) (env : CbEnv) : Except Fault (CbOutcome × Client) :=
  if c.session.cb = ServiceCb.beeSessionReceiveRequest.addr then beeReceiveCb c env
  else if c.session.cb = ServiceCb.h2esqSessionFdAlpnCb.addr then
    c.lift (h2esqSessionFdAlpnCb c.session env.h2)
  else if c.session.cb = ServiceCb.h2esqSessionFdSchCb.addr then
    c.lift (h2esqSessionFdSchCb c.session c.clientFd env.h2)
  else if c.session.cb = ServiceCb.h2esqSessionFdCb.addr then
    c.lift (h2esqSessionFdCb c.session c.clientFd env.h2)
  else if c.session.cb = 0 then .error .designError
  else .error .segv

/--
`esq_session_pop_the_first_active` が接続を選び、`esq_worker_execute_session` が callback を呼ぶ。

`os` は `ACTION_WIND_UP` で poll を仕掛け直すときの OS の戻り値である。
-/
def Client.execute (c : Client) (env : CbEnv) (os : Int) : Except Fault (CbOutcome × Client) := do
  let (r, s) ← c.session.takeAction .executeCb 0
  if r ≠ 0 then .ok (.idle, { c with session := s })
  else do
    let (out, c') ← ({ c with session := s } : Client).callback env
    let (_, s') ← c'.session.takeAction .windUp os
    .ok (out, { c' with session := s' })

/-! ## event -/

inductive ClientEvent where
  /-- new list から取られる -/
  | pickUp (os : Int)
  /-- poll の completion -/
  | poll (ioUringFlags : Nat)
  /-- timing list の tick -/
  | timeout (os : Int)
  /-- `esq_worker_notify_exit_to_all_sessions` -/
  | exit (os : Int)
  /-- 取り消した poll の `-ECANCELED` -/
  | aioRemoved
  /-- active list から選ばれる -/
  | execute (env : CbEnv) (os : Int)

def Client.act (c : Client) (action : Action) (os : Int) : Option Client :=
  match c.session.takeAction action os with
  | .error _ => none
  | .ok (_, s) => some { c with session := s }

def clientStep (c : Client) : ClientEvent → Option Client
  | .pickUp os => c.act .pickUp os
  | .poll ioUringFlags =>
    if eventFlags ioUringFlags = 0 then some c
    else c.act (.notifyEvent (eventFlags ioUringFlags)) 0
  | .timeout os => c.act .notifyTimeout os
  | .exit os => c.act .notifyExit os
  | .aioRemoved => c.act .notifyAioRemoved 0
  | .execute env os =>
    match c.execute env os with
    | .error _ => none
    | .ok (_, c') => some c'

/-! ## callback の前後の session -/

section

variable {s t : Session} {p : PtRun} {action : Action} {os : Int} {cb : ServiceCb}

def Session.closing (s : Session) : Bool :=
  hasBit s.eventBits esqEventBitTimeout || hasBit s.eventBits esqEventBitFdClose
    || hasBit s.eventBits esqEventBitError || hasBit s.eventBits esqEventBitExit

theorem hasBit_orBits {a b bit : Nat} (hbit : bit < 2 ^ 16) :
    hasBit (orBits a b) bit = (hasBit a bit || hasBit b bit) := by
  have hmod : (a ||| b) % 2 ^ 16 &&& bit = (a &&& bit) ||| (b &&& bit) := by
    apply Nat.eq_of_testBit_eq
    intro i
    by_cases hi : i < 16
    · simp only [Nat.testBit_and, Nat.testBit_mod_two_pow, Nat.testBit_or, hi, decide_true,
        Bool.true_and, Bool.and_or_distrib_right]
    · have hlow : bit < 2 ^ i := hbit.trans_le (Nat.pow_le_pow_right (by omega) (by omega))
      simp [Nat.testBit_lt_two_pow hlow]
  unfold hasBit orBits
  rw [hmod]
  by_cases ha : a &&& bit = 0
  · by_cases hb : b &&& bit = 0 <;> simp [ha, hb]
  · simp [ha]

theorem takeAction_settle (hm : s.magic = true) (ht : s.sessionType = .socketCb)
    (hp : esqPtOfSingleShotSocket s.ready action os = .ok p)
    (hsw : wantsSwitch p.session.postOp = false) :
    s.takeAction action os = .ok p.session.settle := by
  have hstep : s.ready.step action os = .ok p := by
    unfold Session.step
    rw [show s.ready.sessionType = .socketCb from ht]
    exact hp
  exact takeAction_stay hm hstep hsw

theorem takeAction_single (hm : s.magic = true) (ht : s.sessionType = .socketCb)
    (hp : esqPtOfSingleShotSocket s.ready action os = .ok p) (hop : p.session.postOp = popNoOp) :
    s.takeAction action os = .ok (esqOk, p.session) := by
  rw [takeAction_settle hm ht hp (by rw [hop]; decide), Session.settle_noOp hop]

/-- callback が `esq_session_set_socket_fd` を呼んだ後の session。 -/
def Session.rearmed (s : Session) (cb : ServiceCb) (expEventBits : Nat) (timeouts : Int) :
    Session :=
  { s with
    expEventBits
    timeouts
    timeoutms := 0
    cb := cb.addr
    postOp := popNoOp
    lc := .single .waitForReinstall }

theorem rearm_eq (hm : s.magic = true) (ht : s.sessionType = .socketCb)
    (hl : s.lc = .single .executeCb) (bits : Nat) (timeouts closeFd : Int) :
    s.rearm cb bits timeouts closeFd = .ok (.rearmed, s.rearmed cb bits timeouts) := by
  unfold Session.rearm esqSessionSetSocketFd
  have hcb : cb.addr ≠ 0 := by cases cb <;> decide
  rw [if_neg hcb, takeAction_single hm ht (p := { session := s.rearmed cb bits timeouts })]
  · rfl
  · unfold esqPtOfSingleShotSocket
    rw [show s.ready.lc = .single .executeCb from hl]
    rfl
  · rfl

end

/-! ## 不変量 -/

/-- event を受けて、callback が呼ばれるのを待っている。 -/
def Session.Woken (s : Session) : Prop :=
  s.lc = .single .waitForRemovedThenActive ∨ s.lc = .single .active

/-- 生きている接続の session。fd が接続の fd でないのは、frame を送受信する段階の接続が
timeout か exit を受けた後だけである。 -/
structure LiveInv (c : Client) : Prop where
  sessionType : c.session.sessionType = .socketCb
  cb : ∃ k : ServiceCb, c.session.cb = k.addr
  label : c.session.lc = .single .waitForCpu ∨ c.session.lc = .single .windedUp ∨ c.session.Woken
  fd : c.session.fd = c.clientFd ∨ (c.session.cb = ServiceCb.h2esqSessionFdCb.addr
    ∧ c.session.closing = true ∧ c.session.Woken)
  woken : c.session.Woken → c.session.eventBits ≠ 0

structure ClientInv (c : Client) : Prop where
  clientFd : 0 < c.clientFd
  live : c.session.magic = true → LiveInv c

section

variable {c c' : Client} {s t : Session} {p : PtRun} {os : Int} {out : CbOutcome} {env : CbEnv}
  {cb : ServiceCb}

theorem orBits_ne_zero {a b : Nat} (hb : b ≠ 0) (hlt : b < 2 ^ 16) : orBits a b ≠ 0 := by
  intro h
  have hbit : hasBit (orBits a b) b = true := by
    rw [hasBit_orBits hlt]
    simp [hasBit, hb]
  rw [h] at hbit
  simp [hasBit] at hbit

theorem closing_orBits (h : s.closing = true) (ht : ∃ bits, t.eventBits = orBits s.eventBits bits) :
    t.closing = true := by
  obtain ⟨bits, ht⟩ := ht
  unfold Session.closing at h ⊢
  rw [ht, hasBit_orBits (by decide), hasBit_orBits (by decide), hasBit_orBits (by decide),
    hasBit_orBits (by decide)]
  simp only [Bool.or_eq_true] at h ⊢
  tauto

theorem eventBits_ne_zero_of_closing (h : s.closing = true) : s.eventBits ≠ 0 := by
  intro h0
  simp [Session.closing, h0, hasBit] at h

theorem LiveInv.installFd (hpos : 0 < c.clientFd) (ht : s.sessionType = .socketCb)
    (hcb : ∃ k : ServiceCb, s.cb = k.addr) (hfd : s.fd = c.clientFd) :
    LiveInv { c with session := (SingleShot.installFd { session := s } os).session } := by
  have hneed : fdNeedInstall s.fd := by
    show s.fd > 0
    omega
  unfold SingleShot.installFd
  rw [if_pos hneed]
  by_cases hos : os ≠ 0
  · rw [if_pos hos]
    exact ⟨ht, hcb, Or.inr (Or.inr (Or.inr rfl)), Or.inl hfd,
      fun _ => orBits_ne_zero (by decide) (by decide)⟩
  · rw [if_neg hos]
    refine ⟨ht, hcb, Or.inr (Or.inl rfl), Or.inl hfd, ?_⟩
    rintro (h | h) <;> cases h

/-- timeout か exit で poll を外す所。fd は 0 になるので、閉じる event を受けた
`h2esq_session_fd_cb` の接続に限る。 -/
theorem LiveInv.removeFdThenActive (hpos : 0 < c.clientFd) (ht : p.session.sessionType = .socketCb)
    (hcb : p.session.cb = ServiceCb.h2esqSessionFdCb.addr) (hfd : p.session.fd = c.clientFd)
    (hclosing : p.session.closing = true) :
    LiveInv { c with session := (SingleShot.removeFdThenActive p os).session } := by
  have hneed : fdNeedInstall p.session.fd := by
    show p.session.fd > 0
    omega
  unfold SingleShot.removeFdThenActive
  rw [if_pos hneed]
  by_cases hos : os ≠ 0
  · rw [if_pos hos]
    refine ⟨ht, ⟨_, hcb⟩, Or.inr (Or.inr (Or.inr rfl)), Or.inr ⟨hcb, ?_, Or.inr rfl⟩,
      fun _ => orBits_ne_zero (by decide) (by decide)⟩
    exact closing_orBits hclosing ⟨_, rfl⟩
  · rw [if_neg hos]
    have hbits := eventBits_ne_zero_of_closing hclosing
    unfold PtRun.changeToNoTimingList
    split
    · exact ⟨ht, ⟨_, hcb⟩, Or.inr (Or.inr (Or.inl rfl)), Or.inr ⟨hcb, hclosing, Or.inl rfl⟩,
        fun _ => hbits⟩
    · exact ⟨ht, ⟨_, hcb⟩, Or.inr (Or.inr (Or.inl rfl)), Or.inr ⟨hcb, hclosing, Or.inl rfl⟩,
        fun _ => hbits⟩

theorem LiveInv.wake (h : LiveInv c) (ht : t.sessionType = c.session.sessionType)
    (hcb : t.cb = c.session.cb) (hfd : t.fd = c.session.fd) (hbits : t.eventBits ≠ 0)
    (hclosing : c.session.closing = true → t.closing = true)
    (hlc : t.lc = .single .active ∨ (t.lc = c.session.lc ∧ c.session.Woken)) :
    LiveInv { c with session := t } := by
  have hwoken : t.Woken := by
    rcases hlc with hl | ⟨hl, hw⟩
    · exact Or.inr hl
    · unfold Session.Woken
      rw [hl]
      exact hw
  refine ⟨ht.trans h.sessionType, ?_, Or.inr (Or.inr hwoken), ?_, fun _ => hbits⟩
  · obtain ⟨k, hk⟩ := h.cb
    exact ⟨k, hcb.trans hk⟩
  · rcases h.fd with h1 | ⟨h1, h2, -⟩
    · exact Or.inl (hfd.trans h1)
    · exact Or.inr ⟨hcb.trans h1, hclosing h2, hwoken⟩

theorem LiveInv.fd_of_not_woken (h : LiveInv c) (hw : ¬ c.session.Woken) :
    c.session.fd = c.clientFd := by
  rcases h.fd with hfd | ⟨-, -, hw'⟩
  · exact hfd
  · exact absurd hw' hw

theorem takeAction_single_inv {action : Action} {r : Int} (hm : s.magic = true)
    (ht : s.sessionType = .socketCb) (h : s.takeAction action os = .ok (r, t)) :
    ∃ p, esqPtOfSingleShotSocket s.ready action os = .ok p
      ∧ (p.session.postOp = popNoOp → t = p.session) := by
  have hstep : s.ready.step action os = esqPtOfSingleShotSocket s.ready action os := by
    unfold Session.step
    rw [show s.ready.sessionType = .socketCb from ht]
  have h' := h
  unfold Session.takeAction at h'
  rw [if_pos hm] at h'
  obtain ⟨p, hp, -⟩ := bind_eq_ok.mp h'
  refine ⟨p, hstep ▸ hp, fun hop => ?_⟩
  rw [takeAction_single hm ht (hstep ▸ hp) hop] at h
  exact (Prod.mk.inj (Except.ok.inj h)).2.symm

def Action.FromEngine : Action → Prop
  | .pickUp => True
  | .notifyTimeout => True
  | .notifyExit => True
  | .notifyAioRemoved => True
  | .notifyEvent bits => bits ≠ 0 ∧ bits < 2 ^ 16
  | _ => False

theorem LiveInv.windedUp {bit : Nat} (h : LiveInv c) (hpos : 0 < c.clientFd)
    (hl : c.session.lc = .single .windedUp) (hcb : c.session.cb = ServiceCb.h2esqSessionFdCb.addr)
    (hbit : bit = esqEventBitTimeout ∨ bit = esqEventBitExit) :
    LiveInv { c with session := (SingleShot.removeFdThenActive
      ((({ session := c.session.ready } : PtRun).addEventBits bit).post popNoOp) os).session } := by
  have hfd : c.session.fd = c.clientFd := h.fd_of_not_woken (by simp [Session.Woken, hl])
  refine LiveInv.removeFdThenActive hpos h.sessionType hcb hfd ?_
  unfold Session.closing
  rcases hbit with rfl | rfl
  · have : hasBit (orBits c.session.eventBits esqEventBitTimeout) esqEventBitTimeout = true := by
      rw [hasBit_orBits (by decide)]
      exact Bool.or_true _
    simp [Session.ready, this]
  · have : hasBit (orBits c.session.eventBits esqEventBitExit) esqEventBitExit = true := by
      rw [hasBit_orBits (by decide)]
      exact Bool.or_true _
    simp [Session.ready, this]

theorem installFd_postOp : (SingleShot.installFd p os).session.postOp = popNoOp := by
  unfold SingleShot.installFd
  split
  · split <;> rfl
  · rfl

theorem removeFdThenActive_postOp (hop : p.session.postOp = popNoOp) :
    (SingleShot.removeFdThenActive p os).session.postOp = popNoOp := by
  unfold SingleShot.removeFdThenActive PtRun.changeToNoTimingList
  split
  · split
    · exact hop
    · dsimp only
      split <;> exact hop
  · exact hop

theorem LiveInv.act {action : Action} (h : LiveInv c) (hpos : 0 < c.clientFd)
    (hact : action.FromEngine)
    (hok : action = .notifyTimeout ∨ action = .notifyExit → c.session.lc = .single .windedUp →
      c.session.cb = ServiceCb.h2esqSessionFdCb.addr)
    (hp : esqPtOfSingleShotSocket c.session.ready action os = .ok p) :
    p.session.postOp = popNoOp ∧ LiveInv { c with session := p.session } := by
  unfold esqPtOfSingleShotSocket at hp
  rcases h.label with hl | hl | hl | hl
  · -- new list から取られるのを待っている
    have hfd : c.session.fd = c.clientFd := h.fd_of_not_woken (by simp [Session.Woken, hl])
    rw [show c.session.ready.lc = .single .waitForCpu from hl] at hp
    cases action with
    | pickUp =>
      cases hp
      exact ⟨installFd_postOp, LiveInv.installFd hpos h.sessionType h.cb hfd⟩
    | _ => cases hp
  · -- event を待っている
    rw [show c.session.ready.lc = .single .windedUp from hl] at hp
    cases action with
    | notifyEvent bits =>
      cases hp
      exact ⟨rfl, h.wake rfl rfl rfl (orBits_ne_zero hact.1 hact.2)
        (fun hc => closing_orBits hc ⟨bits, rfl⟩) (Or.inl rfl)⟩
    | notifyTimeout =>
      cases hp
      exact ⟨removeFdThenActive_postOp rfl,
        h.windedUp hpos hl (hok (Or.inl rfl) hl) (Or.inl rfl)⟩
    | notifyExit =>
      cases hp
      exact ⟨removeFdThenActive_postOp rfl,
        h.windedUp hpos hl (hok (Or.inr rfl) hl) (Or.inr rfl)⟩
    | _ => cases hp
  · -- 取り消した poll の完了を待っている
    rw [show c.session.ready.lc = .single .waitForRemovedThenActive from hl] at hp
    have hw : c.session.Woken := Or.inl hl
    cases action with
    | notifyAioRemoved =>
      cases hp
      exact ⟨rfl, h.wake rfl rfl rfl (h.woken hw) id (Or.inl rfl)⟩
    | notifyExit =>
      cases hp
      exact ⟨rfl, h.wake rfl rfl rfl (orBits_ne_zero (by decide) (by decide))
        (fun hc => closing_orBits hc ⟨_, rfl⟩) (Or.inr ⟨hl.symm, hw⟩)⟩
    | _ => cases hp
  · -- callback を待っている
    rw [show c.session.ready.lc = .single .active from hl] at hp
    have hw : c.session.Woken := Or.inr hl
    cases action with
    | notifyEvent bits =>
      cases hp
      exact ⟨rfl, h.wake rfl rfl rfl (orBits_ne_zero hact.1 hact.2)
        (fun hc => closing_orBits hc ⟨bits, rfl⟩) (Or.inl hl)⟩
    | notifyExit =>
      cases hp
      exact ⟨rfl, h.wake rfl rfl rfl (orBits_ne_zero (by decide) (by decide))
        (fun hc => closing_orBits hc ⟨_, rfl⟩) (Or.inl rfl)⟩
    | executeCb => exact hact.elim
    | _ => cases hp

/-! ## callback -/

theorem closing_eq_false (h : ¬ h2esqClosing s.eventBits = true) : s.closing = false := by
  by_contra hc
  apply h
  unfold Session.closing at hc
  unfold h2esqClosing
  simp only [Bool.not_eq_false, Bool.or_eq_true] at hc ⊢
  tauto

structure Executing (c : Client) : Prop where
  magic : c.session.magic = true
  sessionType : c.session.sessionType = .socketCb
  lc : c.session.lc = .single .executeCb
  clientFd : 0 < c.clientFd
  eventBits : c.session.eventBits ≠ 0
  cb : ∃ k : ServiceCb, c.session.cb = k.addr
  fd : c.session.fd = c.clientFd ∨ (c.session.cb = ServiceCb.h2esqSessionFdCb.addr
    ∧ c.session.closing = true)

/-- callback の結果。接続を閉じるか、fd を変えずに次の event を待つ。 -/
inductive CbSpec (c : Client) : CbOutcome → Client → Prop where
  | released : CbSpec c (.released c.clientFd) c
  | idle (h : c.session.closing = false) : CbSpec c .idle c
  | rearmed (h : c.session.closing = false) (hfd : c.session.fd = c.clientFd) (conn : BeeConn)
      (k : ServiceCb) (bits : Nat) (timeouts : Int) :
      CbSpec c .rearmed { c with session := c.session.rearmed k bits timeouts, conn }

theorem Executing.rearm (h : Executing c) {k : ServiceCb} {bits : Nat} {timeouts f : Int}
    (hc : c.session.closing = false) (hfd : c.session.fd = c.clientFd) :
    ∃ out c', c.lift (c.session.rearm k bits timeouts f) = .ok (out, c') ∧ CbSpec c out c' := by
  refine ⟨_, _, ?_, CbSpec.rearmed hc hfd c.conn k bits timeouts⟩
  rw [rearm_eq h.magic h.sessionType h.lc]
  rfl

theorem Executing.bee (h : Executing c) (hfd : c.session.fd = c.clientFd) :
    ∃ out c', beeReceiveCb c env = .ok (out, c') ∧ CbSpec c out c' := by
  have hpos := h.clientFd
  unfold beeReceiveCb
  dsimp only
  rw [if_neg (by omega)]
  split
  next conn heq =>
    have hc : c.session.closing = false := by
      by_contra hc
      rw [Bool.not_eq_false] at hc
      unfold beeSessionReceiveRequest at heq
      unfold Session.closing at hc
      rw [if_pos (by simp only [Bool.or_eq_true] at hc ⊢; tauto)] at heq
      cases heq
    rw [rearm_eq h.magic h.sessionType h.lc]
    exact ⟨_, _, rfl, CbSpec.rearmed hc hfd conn _ _ _⟩
  next =>
    rw [hfd]
    exact ⟨_, _, rfl, CbSpec.released⟩

theorem Executing.alpn (h : Executing c) (hfd : c.session.fd = c.clientFd) {env : H2Env} :
    ∃ out c', c.lift (h2esqSessionFdAlpnCb c.session env) = .ok (out, c') ∧ CbSpec c out c' := by
  have hpos := h.clientFd
  unfold h2esqSessionFdAlpnCb
  rw [if_neg (by omega), if_neg h.eventBits]
  by_cases hclose : h2esqClosing c.session.eventBits = true
  · rw [if_pos hclose, hfd]
    exact ⟨_, _, rfl, CbSpec.released⟩
  rw [if_neg hclose]
  have hc := closing_eq_false hclose
  split
  · dsimp only
    split
    · exact h.rearm hc hfd
    · split
      · exact h.rearm hc hfd
      · rw [hfd]
        exact ⟨_, _, rfl, CbSpec.released⟩
  · exact ⟨_, _, rfl, CbSpec.idle hc⟩

theorem Executing.sch (h : Executing c) (hfd : c.session.fd = c.clientFd) {env : H2Env} :
    ∃ out c', c.lift (h2esqSessionFdSchCb c.session c.clientFd env) = .ok (out, c')
      ∧ CbSpec c out c' := by
  have hpos := h.clientFd
  unfold h2esqSessionFdSchCb
  rw [if_neg (by omega)]
  by_cases hclose : h2esqClosing c.session.eventBits = true
  · rw [if_pos hclose]
    exact ⟨_, _, rfl, CbSpec.released⟩
  rw [if_neg hclose]
  have hc := closing_eq_false hclose
  split
  · split
    · exact ⟨_, _, rfl, CbSpec.released⟩
    · exact h.rearm hc hfd
  · exact ⟨_, _, rfl, CbSpec.idle hc⟩

def H2Env.RequestsOnly (env : H2Env) : Prop := ∀ call ∈ env.headerCalls, call.isRequest = true

theorem Executing.fdCb (h : Executing c) {env : H2Env} (henv : env.RequestsOnly) :
    ∃ out c', c.lift (h2esqSessionFdCb c.session c.clientFd env) = .ok (out, c')
      ∧ CbSpec c out c' := by
  have hpos := h.clientFd
  unfold h2esqSessionFdCb
  by_cases hclose : h2esqClosing c.session.eventBits = true
  · rw [if_pos hclose]
    exact ⟨_, _, rfl, CbSpec.released⟩
  rw [if_neg hclose]
  have hc := closing_eq_false hclose
  have hfd : c.session.fd = c.clientFd := by
    rcases h.fd with hfd | ⟨-, hc'⟩
    · exact hfd
    · rw [hc] at hc'
      cases hc'
  obtain ⟨r, hr⟩ : ∃ r, h2esqSessionRead c.session env = .ok r := by
    unfold h2esqSessionRead
    split
    · exact nghttp2SessionRecv_ok env.recv henv
    · exact ⟨0, rfl⟩
  rw [hr, ok_bind]
  split
  · exact ⟨_, _, rfl, CbSpec.released⟩
  · split
    · exact ⟨_, _, rfl, CbSpec.released⟩
    · split
      · rw [if_pos (by omega)]
        exact h.rearm hc hfd
      · exact ⟨_, _, rfl, CbSpec.released⟩

theorem Executing.callback (h : Executing c) (henv : env.h2.RequestsOnly) :
    ∃ out c', c.callback env = .ok (out, c') ∧ CbSpec c out c' := by
  have hfd : c.session.cb ≠ ServiceCb.h2esqSessionFdCb.addr → c.session.fd = c.clientFd := by
    intro hcb
    rcases h.fd with hfd | ⟨hcb', -⟩
    · exact hfd
    · exact absurd hcb' hcb
  obtain ⟨k, hk⟩ := h.cb
  unfold Client.callback
  rw [hk] at hfd ⊢
  cases k with
  | beeSessionReceiveRequest => exact h.bee (hfd (by decide))
  | h2esqSessionFdAlpnCb => exact h.alpn (hfd (by decide))
  | h2esqSessionFdSchCb => exact h.sch (hfd (by decide))
  | h2esqSessionFdCb => exact h.fdCb henv

/-! ## callback の前後 -/

def Session.executing (s : Session) : Session :=
  { s with postOp := popReturnValue, r := esqOk, lc := .single .executeCb }

theorem takeAction_executeCb (hm : s.magic = true) (ht : s.sessionType = .socketCb)
    (hl : s.lc = .single .active) : s.takeAction .executeCb os = .ok (esqOk, s.executing) := by
  have hp : esqPtOfSingleShotSocket s.ready .executeCb os
      = .ok { session := s.executing, effects := [.left .active] } := by
    unfold esqPtOfSingleShotSocket
    rw [show s.ready.lc = .single .active from hl]
    rfl
  rw [takeAction_settle hm ht hp (show wantsSwitch popReturnValue = false by decide)]
  exact congrArg Except.ok (Session.settle_returnValue rfl)

theorem active_of_takeAction_executeCb {r : Int} (hm : s.magic = true)
    (ht : s.sessionType = .socketCb)
    (hlabel : s.lc = .single .waitForCpu ∨ s.lc = .single .windedUp ∨ s.Woken)
    (h : s.takeAction .executeCb os = .ok (r, t)) : s.lc = .single .active := by
  obtain ⟨p, hp, -⟩ := takeAction_single_inv hm ht h
  unfold esqPtOfSingleShotSocket at hp
  rcases hlabel with hl | hl | hl | hl
  · rw [show s.ready.lc = .single .waitForCpu from hl] at hp
    cases hp
  · rw [show s.ready.lc = .single .windedUp from hl] at hp
    cases hp
  · rw [show s.ready.lc = .single .waitForRemovedThenActive from hl] at hp
    cases hp
  · exact hl

theorem LiveInv.executing (h : LiveInv c) (hpos : 0 < c.clientFd) (hm : c.session.magic = true)
    (hl : c.session.lc = .single .active) : Executing { c with session := c.session.executing } where
  magic := hm
  sessionType := h.sessionType
  lc := rfl
  clientFd := hpos
  eventBits := h.woken (Or.inr hl)
  cb := h.cb
  fd := by
    rcases h.fd with hfd | ⟨hcb, hc, -⟩
    · exact Or.inl hfd
    · exact Or.inr ⟨hcb, hc⟩

theorem takeAction_windUp_executing (hm : s.magic = true) (ht : s.sessionType = .socketCb)
    (hl : s.lc = .single .executeCb) : s.takeAction .windUp os
      = .ok (esqOk, { s with postOp := popFreeSession, lc := .single .die, magic := false }) := by
  have hp : esqPtOfSingleShotSocket s.ready .windUp os
      = .ok { session := { s with postOp := popFreeSession, lc := .single .die } } := by
    unfold esqPtOfSingleShotSocket
    rw [show s.ready.lc = .single .executeCb from hl]
    rfl
  rw [takeAction_settle hm ht hp (show wantsSwitch popFreeSession = false by decide),
    Session.settle_freeSession rfl]

theorem takeAction_windUp_rearmed (hm : s.magic = true) (ht : s.sessionType = .socketCb)
    (bits : Nat) (timeouts : Int) : (s.rearmed cb bits timeouts).takeAction .windUp os
      = .ok (esqOk,
        (SingleShot.installFd { session := (s.rearmed cb bits timeouts).ready } os).session) := by
  have hp : esqPtOfSingleShotSocket (s.rearmed cb bits timeouts).ready .windUp os
      = .ok (SingleShot.installFd { session := (s.rearmed cb bits timeouts).ready } os) := rfl
  exact takeAction_single hm ht hp installFd_postOp

/-- callback の後の `esq_session_wind_up`。閉じた接続の session は解放され、
待つ接続の session は poll を仕掛け直す。 -/
theorem CbSpec.windUp (h : Executing c) (hspec : CbSpec c out c') (os : Int) :
    ∃ r s, c'.session.takeAction .windUp os = .ok (r, s)
      ∧ (out = .rearmed ∨ s.magic = false)
      ∧ (s.magic = true → LiveInv { c' with session := s }) := by
  cases hspec with
  | released =>
    exact ⟨_, _, takeAction_windUp_executing h.magic h.sessionType h.lc, Or.inr rfl, by simp⟩
  | idle hc =>
    exact ⟨_, _, takeAction_windUp_executing h.magic h.sessionType h.lc, Or.inr rfl, by simp⟩
  | rearmed hc hfd conn k bits timeouts =>
    refine ⟨_, _, takeAction_windUp_rearmed h.magic h.sessionType bits timeouts, Or.inl rfl,
      fun _ => ?_⟩
    exact LiveInv.installFd (c := { c with conn }) h.clientFd h.sessionType ⟨k, rfl⟩ hfd

theorem LiveInv.execute (h : LiveInv c) (hpos : 0 < c.clientFd) (hm : c.session.magic = true)
    (hl : c.session.lc = .single .active) (henv : env.h2.RequestsOnly) :
    ∃ out c', c.execute env os = .ok (out, c') ∧ ClientInv c'
      ∧ (c.session.closing = true → out = .released c.clientFd ∧ c'.session.magic = false) := by
  have hexec := h.executing hpos hm hl
  obtain ⟨out, c1, hcb, hspec⟩ := hexec.callback henv
  obtain ⟨r, s, hwind, hfreed, hlive⟩ := hspec.windUp hexec os
  refine ⟨out, { c1 with session := s }, ?_, ⟨?_, hlive⟩, fun hc => ?_⟩
  · unfold Client.execute
    rw [takeAction_executeCb hm h.sessionType hl, ok_bind]
    dsimp only
    rw [if_neg (by decide), hcb, ok_bind]
    dsimp only
    rw [hwind, ok_bind]
  · cases hspec <;> exact hpos
  · -- 閉じる event が届いていれば、callback は次の event を待たない
    cases hspec with
    | released => exact ⟨rfl, hfreed.resolve_left (by simp)⟩
    | idle hc' =>
      rw [show c.session.closing = false from hc'] at hc
      cases hc
    | rearmed hc' =>
      rw [show c.session.closing = false from hc'] at hc
      cases hc

/-! ## run -/

/-- 三つの callback を `__winded_up` で待つ間は timeout も exit も来ず、届く header は要求のものだけ
である。 -/
def EventFits (c : Client) : ClientEvent → Prop
  | .timeout _ => c.session.lc = .single .windedUp →
      c.session.cb = ServiceCb.h2esqSessionFdCb.addr
  | .exit _ => c.session.lc = .single .windedUp →
      c.session.cb = ServiceCb.h2esqSessionFdCb.addr
  | .execute env _ => env.h2.RequestsOnly
  | _ => True

/-- active list から選ばれた接続の callback は戻り、閉じる event なら接続を解放する。 -/
def CallbackSafe (c : Client) : Prop :=
  ∀ env os, env.h2.RequestsOnly → c.session.magic = true → c.session.lc = .single .active →
    ∃ out c', c.execute env os = .ok (out, c')
      ∧ (c.session.closing = true → out = .released c.clientFd ∧ c'.session.magic = false)

theorem ClientInv.act {action : Action} (h : ClientInv c) (hstep : c.act action os = some c')
    (hact : action.FromEngine)
    (hok : action = .notifyTimeout ∨ action = .notifyExit → c.session.lc = .single .windedUp →
      c.session.cb = ServiceCb.h2esqSessionFdCb.addr) : ClientInv c' := by
  unfold Client.act at hstep
  split at hstep
  · cases hstep
  next r s heq =>
    cases hstep
    by_cases hm : c.session.magic = true
    · have hlive := h.live hm
      obtain ⟨p, hp, hs⟩ := takeAction_single_inv hm hlive.sessionType heq
      obtain ⟨hop, hnew⟩ := hlive.act h.clientFd hact hok hp
      rw [hs hop]
      exact ⟨h.clientFd, fun _ => hnew⟩
    · unfold Session.takeAction at heq
      rw [if_neg hm] at heq
      cases heq
      exact ⟨h.clientFd, h.live⟩

theorem eventFlags_lt (ioUringFlags : Nat) : eventFlags ioUringFlags < 2 ^ 16 := by
  unfold eventFlags
  split_ifs <;> decide

theorem ClientInv.execute (h : ClientInv c) (henv : env.h2.RequestsOnly)
    (hexec : c.execute env os = .ok (out, c')) : ClientInv c' := by
  by_cases hm : c.session.magic = true
  · have hlive := h.live hm
    by_cases hl : c.session.lc = .single .active
    · obtain ⟨out', c1, heq, hinv, -⟩ := hlive.execute h.clientFd hm hl henv
      rw [heq] at hexec
      cases hexec
      exact hinv
    · unfold Client.execute at hexec
      obtain ⟨⟨r, s⟩, hs, -⟩ := bind_eq_ok.mp hexec
      exact absurd (active_of_takeAction_executeCb hm hlive.sessionType hlive.label hs) hl
  · unfold Client.execute Session.takeAction at hexec
    rw [if_neg hm, ok_bind] at hexec
    cases hexec
    exact h

theorem clientInv_step (c : Client) (e : ClientEvent) (c' : Client) (h : ClientInv c)
    (hok : EventFits c e) (hstep : clientStep c e = some c') : ClientInv c' := by
  cases e with
  | pickUp os => exact h.act hstep trivial (by simp)
  | poll ioUringFlags =>
    unfold clientStep at hstep
    dsimp only at hstep
    split at hstep
    · cases hstep
      exact h
    next hne => exact h.act hstep ⟨hne, eventFlags_lt ioUringFlags⟩ (by simp)
  | timeout os => exact h.act hstep trivial fun _ => hok
  | exit os => exact h.act hstep trivial fun _ => hok
  | aioRemoved => exact h.act hstep trivial (by simp)
  | execute env os =>
    unfold clientStep at hstep
    dsimp only at hstep
    split at hstep
    · cases hstep
    next out c1 heq =>
      cases hstep
      exact h.execute hok heq

/-- 受けたばかりの接続の session。大域の new list にいる。 -/
def Service.accepted (service : Service) (fd : Int) : Session :=
  { esqSessionNew with
    sessionType := .socketCb
    lc := .single .waitForCpu
    postOp := popJoinGlobalNewList
    fd
    timeouts := (service.params fd).timeouts
    expEventBits := esqEventBitReadWrite
    cb := (service.params fd).cb }

theorem accept_eq (service : Service) (fd : Int) :
    Client.accept service fd = .ok { session := service.accepted fd, clientFd := fd } := by
  have hcb : (service.params fd).cb ≠ 0 := by
    cases service with
    | bee => exact Nat.one_ne_zero
    | h2 => exact (by decide : (2 : Nat) ≠ 0)
  have hset : esqSessionSetSocketFd esqSessionNew (service.params fd)
      = .ok (esqOk, { service.accepted fd with lc := .single .initial, postOp := popNoOp }) := by
    unfold esqSessionSetSocketFd
    rw [if_neg hcb, takeAction_switch rfl rfl
      (show wantsSwitch popSwitchSessionType = true by decide) rfl, Session.settle_noOp rfl]
    rfl
  unfold Client.accept
  rw [hset, ok_bind]
  dsimp only
  rw [takeAction_stay rfl rfl (show wantsSwitch popJoinGlobalNewList = false by decide),
    Session.settle_joinGlobalNewList rfl]
  rfl

theorem accepted_inv (service : Service) {fd : Int} (hfd : 0 < fd) :
    ClientInv { session := service.accepted fd, clientFd := fd } := by
  refine ⟨hfd, fun _ => ⟨rfl, ?_, Or.inl rfl, Or.inl rfl, ?_⟩⟩
  · cases service with
    | bee => exact ⟨.beeSessionReceiveRequest, rfl⟩
    | h2 => exact ⟨.h2esqSessionFdAlpnCb, rfl⟩
  · rintro (h | h) <;> cases h

/-! ## worker の上の action との対応 -/

theorem Client.lift_solo {r : Except Fault (CbOutcome × Session)}
    (hr : ∀ out t, r = .ok (out, t) → t.Solo) (h : c.lift r = .ok (out, c')) :
    c'.session.Solo := by
  unfold Client.lift at h
  obtain ⟨⟨out, t⟩, ht, h⟩ := bind_eq_ok.mp h
  cases h
  exact hr _ t ht

theorem h2esqSessionFdAlpnCb_solo {env : H2Env} (hs : s.Solo)
    (h : h2esqSessionFdAlpnCb s env = .ok (out, t)) : t.Solo := by
  unfold h2esqSessionFdAlpnCb at h
  split at h
  · cases h
  split at h
  · cases h
  split at h
  · cases h
    exact hs
  split at h
  · dsimp only at h
    split at h
    · exact hs.rearm h
    split at h
    · exact hs.rearm h
    · cases h
      exact hs
  · cases h
    exact hs

theorem h2esqSessionFdSchCb_solo {env : H2Env} {f : Int} (hs : s.Solo)
    (h : h2esqSessionFdSchCb s f env = .ok (out, t)) : t.Solo := by
  unfold h2esqSessionFdSchCb at h
  split at h
  · cases h
  split at h
  · cases h
    exact hs
  split at h
  · split at h
    · cases h
      exact hs
    · exact hs.rearm h
  · cases h
    exact hs

theorem h2esqSessionFdCb_solo {env : H2Env} {f : Int} (hs : s.Solo)
    (h : h2esqSessionFdCb s f env = .ok (out, t)) : t.Solo := by
  unfold h2esqSessionFdCb at h
  split at h
  · cases h
    exact hs
  obtain ⟨r, -, h⟩ := bind_eq_ok.mp h
  split at h
  · cases h
    exact hs
  split at h
  · cases h
    exact hs
  split at h
  · split at h
    · exact hs.rearm h
    · cases h
  · cases h
    exact hs

theorem Client.callback_solo (hs : c.session.Solo) (h : c.callback env = .ok (out, c')) :
    c'.session.Solo := by
  unfold Client.callback at h
  split at h
  · unfold beeReceiveCb at h
    dsimp only at h
    split at h
    · cases h
    · split at h
      · obtain ⟨⟨out', t⟩, ht, h⟩ := bind_eq_ok.mp h
        cases h
        exact hs.rearm ht
      · cases h
        exact hs
  split at h
  · exact Client.lift_solo (fun _ _ => h2esqSessionFdAlpnCb_solo hs) h
  split at h
  · exact Client.lift_solo (fun _ _ => h2esqSessionFdSchCb_solo hs) h
  split at h
  · exact Client.lift_solo (fun _ _ => h2esqSessionFdCb_solo hs) h
  split at h <;> cases h

theorem clientStep_solo (c : Client) (e : ClientEvent) (c' : Client) (hs : c.session.Solo)
    (hstep : clientStep c e = some c') : c'.session.Solo := by
  have hact : ∀ (action : Action) (os : Int), c.act action os = some c' →
      (∀ q cb, action ≠ .setParent q cb) → (∀ c, action ≠ .addChild c) → c'.session.Solo := by
    intro action os h hset hadd
    unfold Client.act at h
    split at h
    · cases h
    next r s heq =>
      cases h
      exact hs.takeAction heq hset hadd
  cases e with
  | pickUp os => exact hact _ _ hstep (by simp) (by simp)
  | poll ioUringFlags =>
    unfold clientStep at hstep
    dsimp only at hstep
    split at hstep
    · cases hstep
      exact hs
    · exact hact _ _ hstep (by simp) (by simp)
  | timeout os => exact hact _ _ hstep (by simp) (by simp)
  | exit os => exact hact _ _ hstep (by simp) (by simp)
  | aioRemoved => exact hact _ _ hstep (by simp) (by simp)
  | execute env os =>
    unfold clientStep at hstep
    dsimp only at hstep
    split at hstep
    · cases hstep
    next out c1 heq =>
      cases hstep
      unfold Client.execute at heq
      obtain ⟨⟨r, s⟩, ht, heq⟩ := bind_eq_ok.mp heq
      have hsolo : s.Solo := hs.takeAction ht (by simp) (by simp)
      dsimp only at heq
      split at heq
      · cases heq
        exact hsolo
      · obtain ⟨⟨out', c2⟩, hcb, heq⟩ := bind_eq_ok.mp heq
        obtain ⟨⟨r', s'⟩, ht', heq⟩ := bind_eq_ok.mp heq
        cases heq
        have hsolo2 : c2.session.Solo :=
          Client.callback_solo (c := { c with session := s }) hsolo hcb
        exact hsolo2.takeAction ht' (by simp) (by simp)

/-- **接続の session の上の action は、worker の上の action である。** -/
theorem client_takeAction_worker {service : Service} {fd : Int} {events : List ClientEvent}
    {action : Action} {w : Worker} {x : Nat}
    (hrun : runFrom clientStep { session := service.accepted fd, clientFd := fd } events = some c)
    (hw : w.session x = c.session) (hset : ∀ q cb, action ≠ .setParent q cb)
    (hadd : ∀ c, action ≠ .addChild c) :
    (esqSessionTakeAction w x action os).map (fun q => (q.1, q.2.session x))
      = c.session.takeAction action os := by
  have hsolo : c.session.Solo :=
    runFrom_invariant' (P := fun c => c.session.Solo) clientStep_solo ⟨rfl, rfl, rfl⟩ hrun
  rw [← hw]
  exact esqSessionTakeAction_session (hw ▸ hsolo) hset hadd

/-! ## 結果 -/

/--
**bee と HTTP/2 の接続の callback は、`esq_design_error()` に着かずに戻り、閉じる event なら接続を解放する。**

三つの callback を待つ接続に timeout か exit が来ない run で成り立つ。
-/
theorem client_callbacks_safe (service : Service) (fd : Int) (hfd : 0 < fd) :
    ∃ c0, Client.accept service fd = .ok c0 ∧ ∀ (events : List ClientEvent) (c : Client),
      Along clientStep EventFits c0 events → runFrom clientStep c0 events = some c →
        CallbackSafe c := by
  refine ⟨_, accept_eq service fd, fun events c halong hrun => ?_⟩
  have hc : ClientInv c :=
    runFrom_invariant clientInv_step (accepted_inv service hfd) halong hrun
  intro env os henv hm hl
  obtain ⟨out, c', hexec, -, hclose⟩ := (hc.live hm).execute hc.clientFd hm hl henv
  exact ⟨out, c', hexec, hclose⟩

/-- 相手が閉じた bee の接続。 -/
theorem client_callbacks_safe_hang_up :
    ∃ c0 c, Client.accept .bee 5 = .ok c0
      ∧ runFrom clientStep c0 [.pickUp 0, .poll pollHup] = some c
      ∧ c.session.magic = true ∧ c.session.lc = .single .active ∧ c.session.closing = true
      ∧ CallbackSafe c := by
  obtain ⟨c0, hc0, hsafe⟩ := client_callbacks_safe .bee 5 (by decide)
  have hrun : runFrom clientStep { session := Service.bee.accepted 5, clientFd := 5 }
      [.pickUp 0, .poll pollHup] = some { session := { Service.bee.accepted 5 with
        lc := .single .active, postOp := popNoOp, eventBits := 1 }, clientFd := 5 } := by
    decide +kernel
  rw [accept_eq] at hc0
  cases hc0
  refine ⟨_, _, accept_eq .bee 5, hrun, rfl, rfl, by decide, hsafe _ _ ?_ hrun⟩
  exact ⟨trivial, fun _ _ => ⟨trivial, fun _ _ => trivial⟩⟩

theorem client_takeAction_worker_sample :
    (esqSessionTakeAction (Worker.init.setSession 3 (Service.bee.accepted 5)) 3 .pickUp 0).map
        (fun q => (q.1, q.2.session 3)) = (Service.bee.accepted 5).takeAction .pickUp 0 :=
  client_takeAction_worker (show runFrom clientStep _ [] = some _ from rfl)
    (Worker.setSession_self ..) (by simp) (by simp)

/-- timeout を受けて active になった bee の接続。 -/
def idleBeeClient : Client where
  session := { Service.bee.accepted 5 with
    lc := .single .active
    postOp := popNoOp
    eventBits := esqEventBitTimeout
    fd := 0
    timeouts := 0 }
  clientFd := 5

/--
2 秒黙った bee の接続。

timeout で poll を外す時に `session->fd` が 0 になり、callback は timeout の bit を見る前に
`esq_design_error()` でプロセスを終える。
-/
theorem idle_bee_client_design_error :
    ∃ c0 c, Client.accept .bee 5 = .ok c0
      ∧ runFrom clientStep c0 [.pickUp 0, .timeout 0, .aioRemoved] = some c
      ∧ c.session.magic = true ∧ c.session.lc = .single .active ∧ c.session.closing = true
      ∧ (∀ env os, c.execute env os = .error .designError) ∧ ¬ CallbackSafe c := by
  have hrun : runFrom clientStep { session := Service.bee.accepted 5, clientFd := 5 }
      [.pickUp 0, .timeout 0, .aioRemoved] = some idleBeeClient := by
    decide +kernel
  have hexec : ∀ env os, idleBeeClient.execute env os = .error .designError := by
    intro env os
    unfold Client.execute
    rw [takeAction_executeCb rfl rfl rfl]
    rfl
  refine ⟨_, _, accept_eq .bee 5, hrun, rfl, rfl, by decide, hexec, fun hsafe => ?_⟩
  obtain ⟨out, c', heq, -⟩ := hsafe {} 0 (by simp [H2Env.RequestsOnly]) rfl rfl
  rw [hexec] at heq
  cases heq

end

end Esq
