import Esq.Bee.Owned

/-!
# 一回の呼び出しの資源

`bee_session_receive_request` の一回の呼び出しが、持っている資源だけに触れ、次の event を待つか、すべてを放すこと。

* `wp_beeSessionReceiveRequest` — 同期の要求の header が揃わない呼び出しは、資源を正しく使う
* `not_wp_of_syncArrives` — 揃う呼び出しは、閉じた descriptor をもう一度閉じる
-/

namespace Esq

open Infra Infra.Owning Owned

/-! ## 資源の状態 -/

structure HoldsAll (fd : Int) (recvBuf replyPtr : Bool) (L : Ledger BeeRes) : Prop where
  own : L (.fd fd) = .held
  other : ∀ n, n ≠ fd → L (.fd n) = .absent
  ctx : L .ctx = .held
  recvBuf : L .recvBuf = if recvBuf then .held else .absent
  replyPtr : L .replyPtr = if replyPtr then .held else .absent

/-- 閉じるばかりの接続の資源。`reply_ptr` は残っていない。 -/
structure Closable (fd : Int) (recvBuf : Bool) (L : Ledger BeeRes) : Prop where
  own : L (.fd fd) = .held
  other : ∀ n, n ≠ fd → L (.fd n) = .absent
  ctx : L .ctx = .held
  recvBuf : L .recvBuf = if recvBuf then .held else .absent
  replyPtr : L .replyPtr ≠ .held

structure AllFreed (fd : Int) (L : Ledger BeeRes) : Prop where
  own : L (.fd fd) = .released
  not_held : ∀ r, L r ≠ .held

/-- 受信の途中の接続。`recv_buf` は payload を読む所でだけ持つ。 -/
structure OwnedConn.Waits (c : OwnedConn) : Prop where
  recvBuf : c.hasRecvBuf = true ↔ c.ctx.lc = .payload
  replyPtr : c.ctx.replyPtr = none

def CallPost (s : Session) : Except Fault BeeCallEnd → Ledger BeeRes → Prop
  | .ok (.waiting t c), L => HoldsAll s.fd c.hasRecvBuf false L ∧ c.Waits
    ∧ t = s.rearmed .beeSessionReceiveRequest esqEventBitRead 2
  | .ok .closed, L => AllFreed s.fd L
  | .error _, _ => False

structure InCall (s : Session) : Prop where
  magic : s.magic = true
  sessionType : s.sessionType = .socketCb
  lc : s.lc = .single .executeCb

section

variable {env : BeeCallEnv} {s : Session} {c : OwnedConn} {ctx : BeeServiceCtx} {fd : Int}
  {L : Ledger BeeRes} {b : Bool} {header : HeaderFromPonyToBee} {turns : List SprintTurn}
  {needSync : Bool} {sock : Sock} {α : Type}

theorem HoldsAll.closable (h : HoldsAll fd b false L) : Closable fd b L :=
  ⟨h.own, h.other, h.ctx, h.recvBuf, by simp [h.replyPtr]⟩

/-! ## 閉じる -/

theorem wp_beeClose (h : Closable s.fd c.hasRecvBuf L) :
    (beeClose s.fd c).wp (CallPost s) L := by
  have hrecv := h.recvBuf
  -- `recv_buf` を解放してもしなくても、最後に残るのは `ctx` だけである
  have hfreed : ∀ M : Ledger BeeRes, M .recvBuf ≠ .held →
      (∀ r, r ≠ .recvBuf → M r = Function.update L (.fd s.fd) .released r) →
        AllFreed s.fd (Function.update M .ctx .released) := by
    intro M hM hsame
    refine ⟨by simp [hsame], fun r => ?_⟩
    cases r with
    | fd n =>
      by_cases hn : n = s.fd
      · simp [hsame, hn]
      · simp [hsame, hn, h.other n hn]
    | ctx => simp
    | recvBuf => simpa using hM
    | replyPtr => simpa [hsame] using h.replyPtr
  unfold beeClose
  simp only [wp_bind, wp_release, wp_touch, wp_releaseIf, wp_pure]
  refine ⟨h.own, by simpa using h.ctx, ?_⟩
  split
  next hb =>
    rw [if_pos hb] at hrecv
    exact ⟨by simpa using hrecv, by simpa using h.ctx,
      hfreed _ (by simp) fun r hr => Function.update_of_ne hr ..⟩
  next hb =>
    rw [if_neg hb] at hrecv
    exact ⟨by simpa using h.ctx, hfreed _ (by simp [hrecv]) fun _ _ => rfl⟩

theorem not_wp_beeClose {Q : Except Fault BeeCallEnd → Ledger BeeRes → Prop}
    (h : L (.fd fd) = .released) : ¬ (beeClose fd c).wp Q L := by
  unfold beeClose
  simp [h]

theorem wp_beeReadAgain (hs : InCall s) (h : HoldsAll s.fd c.hasRecvBuf false L) (hc : c.Waits) :
    (beeReadAgain env s c).wp (CallPost s) L := by
  unfold beeReadAgain
  rw [rearm_eq hs.magic hs.sessionType hs.lc, wp_bind, wp_touch]
  refine ⟨h.own, ?_⟩
  split
  · exact wp_beeClose h.closable
  · exact wp_pure.mpr ⟨h, hc, rfl⟩

/-! ## 要求の処理 -/

theorem beeDbGet_replyPtr {node : BeeNode} {buckets : Buckets}
    {malloc : Option ReplyFromBeeToPony2} :
    (Esq.beeDbGet node buckets malloc ctx).2.opcode = ctx.opcode
      ∧ (Esq.beeDbGet node buckets malloc ctx).2.replyPtr.isSome
        = (!decide (ctx.header.resultBufSize ≤ 0) && malloc.isSome) := by
  unfold Esq.beeDbGet
  split
  next hsize => simp [hsize, BeeServiceCtx.exx, BeeServiceCtx.setReplyPtr]
  next hsize =>
    cases malloc with
    | none => simp [BeeServiceCtx.exx, BeeServiceCtx.setReplyPtr]
    | some mem =>
      dsimp only
      split
      · simp [hsize, BeeServiceCtx.exx, BeeServiceCtx.setReplyPtr]
      · split
        · simp [hsize, BeeServiceCtx.exx, BeeServiceCtx.setReplyPtr]
        · split
          · simp [hsize, BeeServiceCtx.exx, BeeServiceCtx.setReplyPtr]
          · simp [hsize, BeeServiceCtx.setReplyPtr]

theorem beeDbWrite_replyPtr {node : BeeNode} {io : WriteIo}
    {writeLocal : (Nat → Bool) → List Nat → Buckets → Int × Buckets} {op : Int}
    {buckets : Buckets} :
    (beeDbWrite node io writeLocal op buckets ctx needSync).ctx.replyPtr = ctx.replyPtr := by
  have hforward : ∀ forwarded, (ctx.forwardAs op forwarded).replyPtr = ctx.replyPtr := by
    intro forwarded
    unfold BeeServiceCtx.forwardAs
    split <;> rfl
  unfold beeDbWrite
  split
  · rfl
  · dsimp only
    split
    · rfl
    · split
      · exact hforward _
      · rfl

def HandlePost (fd : Int) (ctx : BeeServiceCtx) (L : Ledger BeeRes) : Prop :=
  HoldsAll fd true ctx.replyPtr.isSome L ∧ (ctx.opcode = beeOpMonkey → ctx.replyPtr = none)

theorem HandlePost.none (h : HoldsAll fd true false L) (hp : ctx.replyPtr = none) :
    HandlePost fd ctx L :=
  ⟨by rw [hp]; exact h, fun _ => hp⟩

theorem wp_beeDbGet (h : HoldsAll fd true false L) (hop : ctx.opcode ≠ beeOpMonkey) :
    (Owned.beeDbGet env ctx).wp (HandlePost fd) L := by
  have hget : ∀ malloc, (Esq.beeDbGet env.node env.buckets malloc ctx).2.opcode ≠ beeOpMonkey :=
    fun malloc => by rwa [beeDbGet_replyPtr.1]
  have hrecv : L .recvBuf = .held := h.recvBuf
  have hreply : L .replyPtr = .absent := h.replyPtr
  have hnone : ∀ malloc, (Esq.beeDbGet env.node env.buckets malloc ctx).2.replyPtr.isSome = false →
      HandlePost fd (Esq.beeDbGet env.node env.buckets malloc ctx).2 L := fun malloc hn =>
    ⟨by rw [hn]; exact h, fun hm => absurd hm (hget malloc)⟩
  unfold Owned.beeDbGet
  rw [wp_bind, wp_touch]
  refine ⟨h.ctx, ?_⟩
  split
  next hsize => exact wp_pure.mpr (hnone _ (by simp [beeDbGet_replyPtr.2, hsize]))
  next hsize =>
    cases hm : env.replyMalloc with
    | none => exact wp_pure.mpr (hnone _ (by simp [beeDbGet_replyPtr.2]))
    | some mem =>
      have hpost : HandlePost fd (Esq.beeDbGet env.node env.buckets (some mem) ctx).2
          (Function.update L .replyPtr .held) := by
        refine ⟨⟨by simpa using h.own, fun n hn => by simpa using h.other n hn, by simpa using h.ctx,
          by simpa using hrecv, ?_⟩, fun hm => absurd hm (hget _)⟩
        simp [beeDbGet_replyPtr.2, hsize]
      simp only [wp_bind, wp_acquire, wp_touch]
      refine ⟨hreply, by simpa using hrecv, ?_⟩
      split
      · simpa using ⟨h.ctx, hpost⟩
      · simpa using ⟨h.ctx, hpost⟩

theorem wp_beeMonkey {Q : Unit → Ledger BeeRes → Prop} (h : HoldsAll fd true b L) (hQ : Q () L) :
    (beeMonkey env fd header).wp Q L := by
  have hrecv : L .recvBuf = .held := h.recvBuf
  unfold beeMonkey
  rw [wp_bind, wp_touch]
  refine ⟨h.ctx, ?_⟩
  split
  · exact wp_touch.mpr ⟨h.own, hQ⟩
  · split
    · exact wp_touch.mpr ⟨h.own, hQ⟩
    · simpa using ⟨hrecv, h.own, hQ⟩

theorem wp_beeDbSet (h : HoldsAll fd true false L) (hp : ctx.replyPtr = none) :
    (Owned.beeDbSet env ctx needSync).wp (HandlePost fd) L := by
  unfold Owned.beeDbSet
  simpa using ⟨h.ctx, h.recvBuf, h.ctx, HandlePost.none h (beeDbWrite_replyPtr.trans hp)⟩

theorem wp_beeDbDel (h : HoldsAll fd true false L) (hp : ctx.replyPtr = none) :
    (Owned.beeDbDel env ctx needSync).wp (HandlePost fd) L := by
  unfold Owned.beeDbDel
  simpa using ⟨h.ctx, h.recvBuf, h.ctx, HandlePost.none h (beeDbWrite_replyPtr.trans hp)⟩

theorem wp_beeHandle (h : HoldsAll fd true false L) (hp : ctx.replyPtr = none) :
    (beeHandle env fd ctx).wp (HandlePost fd) L := by
  have hskip := HandlePost.none h hp
  unfold beeHandle
  split_ifs with h1 h2
  · exact wp_beeDbSet h hp
  · exact wp_beeDbGet h (by rw [h2]; decide)
  · exact wp_beeDbDel h hp
  · exact wp_pure.mpr hskip
  · exact wp_pure.mpr hskip
  · exact wp_pure.mpr hskip
  · exact wp_pure.mpr hskip
  · exact wp_beeDbSet h hp
  · exact wp_beeDbDel h hp
  · exact wp_bind.mpr (wp_beeMonkey h (wp_pure.mpr hskip))
  · simpa using ⟨h.ctx, HandlePost.none h (show (ctx.exx _).replyPtr = none from hp)⟩

theorem wp_beeReply (h : HandlePost fd ctx L) :
    (beeReply fd ctx).wp (fun _ => Closable fd true) L := by
  obtain ⟨h, hmonkey⟩ := h
  unfold beeReply
  rw [wp_bind, wp_touch]
  refine ⟨h.ctx, ?_⟩
  split
  next hop =>
    rw [hmonkey hop] at h
    exact wp_pure.mpr h.closable
  · cases hr : ctx.replyPtr.isSome with
    | false =>
      rw [hr] at h
      simpa using ⟨h.own, h.closable⟩
    | true =>
      rw [hr] at h
      have hreply : L .replyPtr = .held := h.replyPtr
      simp only [if_true, wp_bind, wp_touch, wp_release]
      exact ⟨hreply, h.own, hreply, by simpa using h.ctx, by simpa using h.own, by simpa using h.own,
        fun n hn => by simpa using h.other n hn, by simpa using h.ctx, by simpa using h.recvBuf,
        by simp⟩

/-! ## 受信 -/

theorem wp_beeDispatch (h : HoldsAll s.fd true false L) (hc : c.Waits) (hrecv : c.hasRecvBuf = true) :
    (beeDispatch env s.fd c).wp (CallPost s) L := by
  unfold beeDispatch
  rw [wp_bind]
  refine (wp_beeHandle h hc.replyPtr).mono fun ctx M hM => ?_
  rw [wp_bind]
  exact (wp_beeReply hM).mono fun _ N hN => wp_beeClose (by rw [hrecv]; exact hN)

theorem wp_beeCheckPayload (h : HoldsAll s.fd true false L) (hc : c.Waits)
    (hrecv : c.hasRecvBuf = true) : (Owned.beeCheckPayload env s.fd c).wp (CallPost s) L := by
  unfold Owned.beeCheckPayload
  rw [wp_bind, wp_touch]
  refine ⟨h.recvBuf, ?_⟩
  split
  · exact wp_beeClose (by rw [hrecv]; exact h.closable)
  · exact wp_beeDispatch h hc hrecv

theorem wp_beeReceivePayload (hs : InCall s) (h : HoldsAll s.fd true false L) (hc : c.Waits)
    (hrecv : c.hasRecvBuf = true) :
    (Owned.beeReceivePayload env s c sock).wp (CallPost s) L := by
  have hheld : HoldsAll s.fd c.hasRecvBuf false L := by rwa [hrecv]
  unfold Owned.beeReceivePayload
  rw [wp_bind, wp_touch]
  refine ⟨h.ctx, ?_⟩
  split
  · simp only [wp_bind, wp_touch]
    refine ⟨h.recvBuf, h.own, ?_⟩
    split
    · exact wp_beeReadAgain hs hheld hc
    · exact wp_beeClose hheld.closable
    · exact wp_beeClose hheld.closable
    · split
      · exact wp_beeCheckPayload h ⟨hc.recvBuf, hc.replyPtr⟩ hrecv
      · exact wp_beeReadAgain hs hheld ⟨hc.recvBuf, hc.replyPtr⟩
  · exact wp_beeCheckPayload h hc hrecv

theorem BeeServiceCtx.takeHeader_replyPtr {recvBuf : List UInt8} :
    (ctx.takeHeader header recvBuf).replyPtr = ctx.replyPtr := rfl

/-! ## 同期の要求 -/

def BeeConn.headerWith (conn : BeeConn) (sock : Sock) : HeaderFromPonyToBee :=
  .ofBytes (splice conn.headerBuf conn.ctx.offset
    (sock.arrived.take (headerSize - conn.ctx.offset)))

/-- header が届いた byte で揃い、検査を通る同期の要求になる。 -/
def BeeConn.completesSync (conn : BeeConn) (sock : Sock) : Bool :=
  conn.ctx.offset < headerSize && headerSize - conn.ctx.offset ≤ sock.arrived.length
    && (conn.headerWith sock).accepted && beeOpTypeMask (conn.headerWith sock).opcode = beeOpSync

/-- 次の呼び出しで、同期の要求の header が揃う。 -/
def BeeConn.syncArrives (conn : BeeConn) (sock : Sock) : Bool :=
  match conn.ctx.lc with
  | .start => (conn.setCtx { conn.ctx with offset := 0, lc := .header }).completesSync sock
  | .header => conn.completesSync sock
  | .payload => false

theorem ofBytes_fillHeader : HeaderFromPonyToBee.ofBytes (c.fillHeader
    (sock.arrived.take (headerSize - c.ctx.offset))).headerBuf = c.headerWith sock := rfl

theorem osReadNb_pos {n : Nat} {r : Int} {bytes : List UInt8} {sock' : Sock}
    (h : osReadNb sock n = (r, bytes, sock')) (hr : ¬ r ≤ 0) :
    n ≠ 0 ∧ bytes = sock.arrived.take n := by
  unfold osReadNb Sock.read at h
  by_cases hn : n = 0
  · rw [if_pos hn] at h
    cases h
    exact absurd le_rfl hr
  · refine ⟨hn, ?_⟩
    rw [if_neg hn] at h
    by_cases harr : sock.arrived ≠ []
    · rw [if_pos harr] at h
      cases h
      rfl
    · rw [if_neg harr] at h
      split_ifs at h <;> cases h <;> simp at hr

theorem wp_mergeSprintTurns {Q : Unit → Ledger BeeRes → Prop} (h : L (.fd fd) = .held) :
    (mergeSprintTurns fd header turns).wp Q L ↔ Q () L := by
  induction turns generalizing header with
  | nil => exact wp_pure
  | cons turn turns ih =>
    unfold mergeSprintTurns
    split
    · exact wp_pure
    · rw [wp_bind, wp_touch]
      split
      · simp [h]
      · rw [wp_bind, wp_touch]
        split
        · simp [h]
        · simp [h, ih]

/-- **同期の要求を受けた後では、descriptor は閉じている。** -/
theorem wp_beeDbStartMergeSprint {Q : Unit → Ledger BeeRes → Prop} (hfd : L (.fd fd) = .held)
    (hctx : L .ctx = .held) : (Owned.beeDbStartMergeSprint env fd header).wp Q L
      ↔ Q () (Function.update L (.fd fd) .released) := by
  unfold Owned.beeDbStartMergeSprint
  rw [wp_bind, wp_touch]
  split
  · simp [hfd]
  · simp [hfd, hctx, wp_mergeSprintTurns hfd]

theorem wp_beeCheckHeader (hs : InCall s) (h : HoldsAll s.fd false false L)
    (hp : c.ctx.replyPtr = none) (hrecv : c.hasRecvBuf = false)
    (hsync : (HeaderFromPonyToBee.ofBytes c.headerBuf).accepted →
      beeOpTypeMask (HeaderFromPonyToBee.ofBytes c.headerBuf).opcode ≠ beeOpSync) :
    (Owned.beeCheckHeader env s c sock).wp (CallPost s) L := by
  have hclose : Closable s.fd c.hasRecvBuf L := by
    rw [hrecv]
    exact h.closable
  have hrecvBuf : L .recvBuf = .absent := h.recvBuf
  unfold Owned.beeCheckHeader beeTakeHeader
  rw [wp_bind, wp_touch]
  refine ⟨h.ctx, ?_⟩
  split
  · exact wp_beeClose hclose
  next hacc =>
    rw [if_neg (hsync (by simpa using hacc))]
    split
    · exact wp_beeClose hclose
    · rw [wp_bind, wp_acquire]
      refine ⟨hrecvBuf, wp_beeReceivePayload hs ?_ ⟨by simp [BeeServiceCtx.takeHeader],
        BeeServiceCtx.takeHeader_replyPtr.trans hp⟩ rfl⟩
      exact ⟨by simpa using h.own, fun n hn => by simpa using h.other n hn, by simpa using h.ctx,
        by simp, by simpa using h.replyPtr⟩

theorem wp_beeReceiveHeader (hs : InCall s) (h : HoldsAll s.fd false false L)
    (hp : c.ctx.replyPtr = none) (hrecv : c.hasRecvBuf = false) (hlc : c.ctx.lc = .header)
    (hsync : c.completesSync env.sock = false) :
    (Owned.beeReceiveHeader env s c).wp (CallPost s) L := by
  obtain ⟨r, bytes, sock', hread⟩ : ∃ r bytes sock',
      osReadNb env.sock (headerSize - c.ctx.offset) = (r, bytes, sock') := ⟨_, _, _, rfl⟩
  rw [beeReceiveHeader_eq hread, wp_bind, wp_touch]
  refine ⟨h.ctx, ?_⟩
  rw [wp_bind, wp_touch]
  refine ⟨h.own, ?_⟩
  unfold beeHeaderRead
  split
  · exact wp_beeClose (by rw [hrecv]; exact h.closable)
  next hr =>
    obtain ⟨hneed, hbytes⟩ := osReadNb_pos hread hr
    split
    next hlen =>
      refine wp_beeCheckHeader hs h hp hrecv fun hacc hop => ?_
      have hle : headerSize - c.ctx.offset ≤ env.sock.arrived.length := by
        rw [hbytes, List.length_take] at hlen
        omega
      have htrue : c.completesSync env.sock = true := by
        rw [hbytes, ofBytes_fillHeader] at hacc hop
        unfold BeeConn.completesSync
        simp only [Bool.and_eq_true, decide_eq_true_eq]
        exact ⟨⟨⟨by omega, hle⟩, hacc⟩, hop⟩
      rw [htrue] at hsync
      cases hsync
    next =>
      have hfill : (c.fillHeader bytes).hasRecvBuf = false := hrecv
      refine wp_beeReadAgain hs (by rw [hfill]; exact h) ⟨?_, hp⟩
      simp [hfill, BeeServiceCtx.advance, hlc]

/-- **同期の要求の header が揃わない呼び出しは、資源を正しく使う。** -/
theorem wp_beeSessionReceiveRequest (hs : InCall s) (h : HoldsAll s.fd c.hasRecvBuf false L)
    (hc : c.Waits) (hfd : 0 < s.fd)
    (hsync : s.closing = false → c.syncArrives env.sock = false) :
    (Owned.beeSessionReceiveRequest env s c).wp (CallPost s) L := by
  unfold Owned.beeSessionReceiveRequest
  rw [if_neg (by omega)]
  split
  · exact wp_beeClose h.closable
  next hclosing =>
    have hsync := hsync (by simpa using hclosing)
    have hheader : c.ctx.lc ≠ .payload → c.hasRecvBuf = false := fun hne =>
      Bool.eq_false_iff.mpr fun hrecv => hne (hc.recvBuf.mp hrecv)
    unfold Owned.beeResume
    unfold BeeConn.syncArrives at hsync
    cases hlc : c.ctx.lc with
    | start =>
      have hrecv := hheader (by simp [hlc])
      rw [hlc] at hsync
      rw [hrecv] at h
      exact wp_beeReceiveHeader hs h hc.replyPtr hrecv rfl hsync
    | header =>
      have hrecv := hheader (by simp [hlc])
      rw [hlc] at hsync
      rw [hrecv] at h
      exact wp_beeReceiveHeader hs h hc.replyPtr hrecv hlc hsync
    | payload =>
      have hrecv := hc.recvBuf.mpr hlc
      rw [hrecv] at h
      exact wp_beeReceivePayload hs h hc hrecv

theorem beeCheckHeader_of_sync (c : OwnedConn) (h : HoldsAll s.fd b false L)
    (hacc : (HeaderFromPonyToBee.ofBytes c.headerBuf).accepted = true)
    (hop : beeOpTypeMask (HeaderFromPonyToBee.ofBytes c.headerBuf).opcode = beeOpSync) :
    (Owned.beeCheckHeader env s c sock).result = .ok .closed
      ∧ ∀ Q, ¬ (Owned.beeCheckHeader env s c sock).wp Q L := by
  unfold Owned.beeCheckHeader beeTakeHeader
  rw [if_neg (by simp [hacc]), if_pos hop]
  refine ⟨rfl, fun Q hwp => ?_⟩
  rw [wp_bind, wp_touch, wp_bind, wp_beeDbStartMergeSprint h.own h.ctx] at hwp
  exact not_wp_beeClose (Function.update_self ..) hwp.2

theorem beeReceiveHeader_of_completesSync (h : HoldsAll s.fd b false L)
    (hsync : c.completesSync env.sock = true) :
    (Owned.beeReceiveHeader env s c).result = .ok .closed
      ∧ ∀ Q, ¬ (Owned.beeReceiveHeader env s c).wp Q L := by
  unfold BeeConn.completesSync at hsync
  simp only [Bool.and_eq_true, decide_eq_true_eq] at hsync
  obtain ⟨⟨⟨hoffset, hle⟩, hacc⟩, hop⟩ := hsync
  have hlen : (env.sock.arrived.take (headerSize - c.ctx.offset)).length
      = headerSize - c.ctx.offset := by
    rw [List.length_take]
    omega
  have harr : env.sock.arrived ≠ [] := by
    intro hnil
    rw [hnil, List.length_nil] at hle
    omega
  obtain ⟨sock', hread⟩ : ∃ sock', osReadNb env.sock (headerSize - c.ctx.offset)
      = (((env.sock.arrived.take (headerSize - c.ctx.offset)).length : Int),
        env.sock.arrived.take (headerSize - c.ctx.offset), sock') := by
    refine ⟨{ env.sock with arrived := env.sock.arrived.drop (headerSize - c.ctx.offset) }, ?_⟩
    unfold osReadNb Sock.read
    rw [if_neg (by omega), if_pos harr]
  rw [beeReceiveHeader_eq hread]
  unfold beeHeaderRead
  rw [if_neg (by omega), if_pos hlen]
  rw [← ofBytes_fillHeader] at hacc hop
  obtain ⟨hresult, hnot⟩ := beeCheckHeader_of_sync (c.fillHeader _) h hacc hop
  constructor
  · rw [result_touch_bind, result_touch_bind]
    exact hresult
  · intro Q hwp
    rw [wp_bind, wp_touch, wp_bind, wp_touch] at hwp
    exact hnot Q hwp.2.2

/-- **同期の要求の header が揃うと、閉じた descriptor をもう一度閉じる。** -/
theorem not_wp_of_syncArrives (h : HoldsAll s.fd b false L) (hfd : 0 < s.fd)
    (hclosing : s.closing = false) (hsync : c.syncArrives env.sock = true) :
    (Owned.beeSessionReceiveRequest env s c).result = .ok .closed
      ∧ ∀ Q, ¬ (Owned.beeSessionReceiveRequest env s c).wp Q L := by
  unfold Owned.beeSessionReceiveRequest
  rw [if_neg (by omega), if_neg (by simp [hclosing])]
  unfold Owned.beeResume
  unfold BeeConn.syncArrives at hsync
  cases hlc : c.ctx.lc with
  | start =>
    rw [hlc] at hsync
    exact beeReceiveHeader_of_completesSync h hsync
  | header =>
    rw [hlc] at hsync
    exact beeReceiveHeader_of_completesSync h hsync
  | payload =>
    rw [hlc] at hsync
    cases hsync

end

end Esq
