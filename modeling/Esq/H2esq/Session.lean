import Esq.Session.Solo

/-!
# HTTP/2 の接続

`nghttp2_wrapper/session.c` の三つの callback。接続は TLS の handshake
（`h2esq_session_fd_alpn_cb`）、server connection header（`h2esq_session_fd_sch_cb`）、
frame の送受信（`h2esq_session_fd_cb`）の順に進む。

OpenSSL と nghttp2 が返す値は `H2Env` で受ける。`nghttp2_session_recv` は header を受けるたびに
`h2esq_stream_on_header` を呼ぶので、その呼び出しの列も `H2Env` に入る。
-/

namespace Esq

/-! ## TLS の handshake -/

inductive SslError where
  | none
  | zeroReturn
  | wantRead
  | wantWrite
  | wantConnect
  | wantAccept
  | wantX509Lookup
  | wantAsync
  | wantAsyncJob
  | syscall
  | ssl
  | other
deriving DecidableEq, Repr

/-- `h2esq_SSL_accept`。`r` は `SSL_accept` の、`err` は続く `SSL_get_error` の戻り値である。 -/
def h2esqSslAccept (r : Int) (err : SslError) : Int :=
  if r = 1 then 0
  else match err with
    | .wantRead => 1
    | .wantWrite => 1
    | .wantConnect => 1
    | .wantAccept => 1
    | _ => -1

/-! ## header の受信 -/

inductive FrameType where
  | data
  | headers
  | pushPromise
  | other
deriving DecidableEq, Repr

inductive HeadersCategory where
  | request
  | response
  | pushResponse
  | headers
deriving DecidableEq, Repr

structure HeaderCall where
  frameType : FrameType
  cat : HeadersCategory
  /-- `nghttp2_session_get_stream_user_data` が NULL でない -/
  stream : Bool
  /-- `h2esq_stream_record_header` の戻り値 -/
  record : Int
deriving DecidableEq, Repr

def h2esqStreamOnHeader (call : HeaderCall) : Except Fault Int :=
  match call.frameType with
  | .headers =>
    match call.cat with
    | .request =>
      if call.stream then
        if call.record ≠ 0 then .ok nghttp2ErrCallbackFailure else .ok 0
      else .error .designError
    | _ => .error .designError
  | _ => .error .designError

/--
`nghttp2_session_recv` が header を順に渡す。

callback が 0 以外を返すと、そこで止まって `NGHTTP2_ERR_CALLBACK_FAILURE` を返す。
-/
def nghttp2SessionRecv (r : Int) : List HeaderCall → Except Fault Int
  | [] => .ok r
  | call :: calls => do
    let r' ← h2esqStreamOnHeader call
    if r' ≠ 0 then .ok nghttp2ErrCallbackFailure else nghttp2SessionRecv r calls

def HeaderCall.isRequest (call : HeaderCall) : Bool :=
  call.frameType = .headers && call.cat = .request && call.stream

theorem h2esqStreamOnHeader_ok_iff (call : HeaderCall) :
    (∃ r, h2esqStreamOnHeader call = .ok r) ↔ call.isRequest = true := by
  obtain ⟨frameType, cat, stream, record⟩ := call
  unfold h2esqStreamOnHeader HeaderCall.isRequest
  constructor
  · rintro ⟨r, h⟩
    cases frameType <;> cases cat <;> cases stream <;> simp_all
  · intro h
    cases frameType <;> cases cat <;> cases stream <;> simp_all
    by_cases hr : record = 0
    · exact ⟨0, by simp [hr]⟩
    · exact ⟨nghttp2ErrCallbackFailure, by simp [hr]⟩

theorem nghttp2SessionRecv_ok (r : Int) : ∀ {calls : List HeaderCall},
    (∀ call ∈ calls, call.isRequest = true) → ∃ r', nghttp2SessionRecv r calls = .ok r'
  | [], _ => ⟨r, rfl⟩
  | call :: calls, h => by
    obtain ⟨r', hr'⟩ := (h2esqStreamOnHeader_ok_iff call).mpr (h call List.mem_cons_self)
    have hrest : ∀ c ∈ calls, c.isRequest = true := fun c hc => h c (List.mem_cons_of_mem _ hc)
    obtain ⟨r'', hr''⟩ := nghttp2SessionRecv_ok r hrest
    unfold nghttp2SessionRecv
    rw [hr', ok_bind]
    by_cases h0 : r' = 0
    · exact ⟨r'', by rw [if_neg (not_not.mpr h0), hr'']⟩
    · exact ⟨_, if_pos h0⟩

/-! ## callback -/

/-- 一回の callback の間に OpenSSL と nghttp2 が返すもの。 -/
structure H2Env where
  /-- `SSL_accept` -/
  sslAccept : Int := 0
  /-- `SSL_get_error` -/
  sslError : SslError := .ssl
  /-- `nghttp2_submit_settings` -/
  submitSettings : Int := 0
  /-- 読む前の `nghttp2_session_want_read` -/
  wantRead : Bool := false
  /-- `nghttp2_session_recv` の間の `h2esq_stream_on_header` -/
  headerCalls : List HeaderCall := []
  /-- `nghttp2_session_recv` -/
  recv : Int := 0
  /-- 書く前の `nghttp2_session_want_write` -/
  wantWrite : Bool := false
  /-- `nghttp2_session_send` -/
  send : Int := 0
  /-- 読み書きの後の `nghttp2_session_want_read` -/
  wantReadAgain : Bool := false
  /-- 読み書きの後の `nghttp2_session_want_write` -/
  wantWriteAgain : Bool := false
deriving DecidableEq, Repr

/-- 三つの callback が最初に調べる、接続を閉じる event。 -/
def h2esqClosing (eventBits : Nat) : Bool :=
  hasBit eventBits esqEventBitExit || hasBit eventBits esqEventBitLockObtain
    || hasBit eventBits esqEventBitFdClose || hasBit eventBits esqEventBitError
    || hasBit eventBits esqEventBitTimeout

def esqEventBitReadWrite : Nat := esqEventBitRead ||| esqEventBitWrite

def h2esqSessionFdAlpnCb (s : Session) (env : H2Env) : Except Fault (CbOutcome × Session) :=
  if s.fd ≤ 0 then .error .designError
  else if s.eventBits = 0 then .error .designError
  else if h2esqClosing s.eventBits then .ok (.released s.fd, s)
  else if hasBit s.eventBits esqEventBitRead || hasBit s.eventBits esqEventBitWrite then
    let r := h2esqSslAccept env.sslAccept env.sslError
    if r = 1 then s.rearm .h2esqSessionFdAlpnCb esqEventBitReadWrite 10 s.fd
    else if r = 0 then s.rearm .h2esqSessionFdSchCb esqEventBitReadWrite 10 s.fd
    else .ok (.released s.fd, s)
  else .ok (.idle, s)

def h2esqSendServerConnectionHeader (env : H2Env) : Int :=
  if env.submitSettings ≠ 0 then -1 else 0

/-- `h2esq_session_fd_sch_cb`。`h2Fd` は `h2esq_session->fd` である。 -/
def h2esqSessionFdSchCb (s : Session) (h2Fd : Int) (env : H2Env) :
    Except Fault (CbOutcome × Session) :=
  if s.fd ≤ 0 then .error .designError
  else if h2esqClosing s.eventBits then .ok (.released h2Fd, s)
  else if hasBit s.eventBits esqEventBitRead || hasBit s.eventBits esqEventBitWrite then
    if h2esqSendServerConnectionHeader env ≠ 0 then .ok (.released h2Fd, s)
    else s.rearm .h2esqSessionFdCb esqEventBitReadWrite 10 h2Fd
  else .ok (.idle, s)

def H2Env.newEventBits (env : H2Env) : Nat :=
  (if env.wantReadAgain then esqEventBitRead else 0)
    ||| (if env.wantWriteAgain then esqEventBitWrite else 0)

def h2esqSessionRead (s : Session) (env : H2Env) : Except Fault Int :=
  if hasBit s.eventBits esqEventBitRead && env.wantRead then
    nghttp2SessionRecv env.recv env.headerCalls
  else .ok 0

/--
`h2esq_session_fd_cb`

fd を調べるのは次の event を待つときだけである。子の無い session では
`esq_execute_session_done_cb` は何もしない。
-/
def h2esqSessionFdCb (s : Session) (h2Fd : Int) (env : H2Env) :
    Except Fault (CbOutcome × Session) :=
  if h2esqClosing s.eventBits then .ok (.released h2Fd, s)
  else do
    let r ← h2esqSessionRead s env
    if r ≠ 0 then .ok (.released h2Fd, s)
    else if (hasBit s.eventBits esqEventBitWrite && env.wantWrite) ∧ env.send ≠ 0 then
      .ok (.released h2Fd, s)
    else if env.newEventBits ≠ 0 then
      if s.fd > 0 then s.rearm .h2esqSessionFdCb env.newEventBits 10 h2Fd
      else .error .designError
    else .ok (.released h2Fd, s)

end Esq
