import Esq.Infra.Run
import Esq.Pony

/-!
# 要求の切り出し

`pony` の送った byte がどう分かれて届き、どの順に起こされても、`bee_session_receive_request` が要求を
一つだけ、揃ってから、同じ中身で処理に渡す条件。

受信には二つの段階がある。header の段階の `os_read_nb` は、届いた byte が無いときも 0 を返すので、
相手が閉じたのと区別がつかない。payload の段階は `ESQ_EVENT_BIT_READ` が無いと読まずに先へ進む。
最初に待つ event は READ と WRITE なので、どちらも起こり得る。
-/

namespace Esq

open Infra

/-! ## 要求 -/

/-- `pony` が送る要求。長さはどれも `int` である。 -/
structure PonyRequest.Sendable (req : PonyRequest) : Prop where
  opcode : req.opcode = beeOpDbGet ∨ req.opcode = beeOpDbSet ∨ req.opcode = beeOpDbDel
  name_ne : req.rangeMapName.bytes ≠ []
  name_lt : req.rangeMapName.bytes.length < rangeMapNameMax
  key_ne : req.key ≠ []
  key_int : req.key.length < 2 ^ 31
  data_int : req.data.length < 2 ^ 31
  timeval : req.timeval.length = timevalSize
  resultBufSize : toInt32 (req.resultBufSize.getD 0) = req.resultBufSize.getD 0

/-- 処理に渡された要求は、送られた要求と同じである。 -/
structure SameRequest (req : PonyRequest) (ctx : BeeServiceCtx) : Prop where
  opcode : ctx.opcode = req.opcode
  header : ctx.header = req.header
  name : ctx.mapName = req.rangeMapName
  key : ctx.key = req.key
  timeval : ctx.timeval = req.timeval
  data : ctx.data = req.data

section

variable {req : PonyRequest}

theorem PonyRequest.length_payload (hs : req.Sendable) : req.payload.length
    = req.rangeMapName.bytes.length + 1 + req.key.length + timevalSize + req.data.length := by
  simp only [payload, List.length_append, List.length_singleton, hs.timeval]

theorem PonyRequest.ofBytes_header (hs : req.Sendable) :
    HeaderFromPonyToBee.ofBytes req.header.bytes = req.header := by
  have hname : req.rangeMapName.bytes.length < 32 := hs.name_lt
  have hkey := hs.key_int
  have hdata := hs.data_int
  have hop : toInt32 req.opcode = req.opcode := by
    rcases hs.opcode with h | h | h <;> rw [h] <;> rfl
  have hlen : ∀ n : Nat, n < 2 ^ 31 → toInt32 n = n :=
    fun n hn => toInt32_of_range (by omega) (by omega)
  have hat := fun i h => intAt_structBytes [req.header.opcode, req.header.rangeMapNameLen,
    req.header.keyLen, req.header.dataLen, req.header.resultBufSize] [] i h
  simp only [List.append_nil] at hat
  unfold HeaderFromPonyToBee.ofBytes HeaderFromPonyToBee.bytes
  rw [hat 0 (by simp), hat 1 (by simp), hat 2 (by simp), hat 3 (by simp), hat 4 (by simp)]
  simp only [List.get_eq_getElem, List.getElem_cons_zero, List.getElem_cons_succ]
  simp only [header, hop, hlen _ (Nat.lt_trans hname (by decide)), hlen _ hkey, hlen _ hdata,
    hs.resultBufSize]

theorem PonyRequest.header_accepted (hs : req.Sendable) : req.header.accepted = true := by
  have hname := List.length_pos_iff.mpr hs.name_ne
  have hkey := List.length_pos_iff.mpr hs.key_ne
  have hlt := hs.name_lt
  unfold HeaderFromPonyToBee.accepted header
  simp only [Bool.and_eq_true, decide_eq_true_eq]
  omega

theorem PonyRequest.header_payloadSize (hs : req.Sendable) (hsize : req.payload.length < 2 ^ 31) :
    req.header.payloadSize = req.payload.length := by
  rw [length_payload hs] at hsize ⊢
  unfold HeaderFromPonyToBee.payloadSize header
  rw [toInt32_of_range] <;> push_cast <;> omega

theorem PonyRequest.opcode_masked (hs : req.Sendable) :
    beeOpTypeMask req.header.opcode = req.opcode ∧ req.opcode ≠ beeOpSync := by
  show beeOpTypeMask req.opcode = req.opcode ∧ req.opcode ≠ beeOpSync
  rcases hs.opcode with h | h | h <;> rw [h] <;> exact ⟨by decide, by decide⟩

theorem sameRequest_of_payload (hs : req.Sendable) {ctx : BeeServiceCtx}
    (hop : ctx.opcode = req.opcode) (hheader : ctx.header = req.header)
    (hbuf : ctx.recvBuf = req.payload) : SameRequest req ctx := by
  have hn : ctx.header.rangeMapNameLen.toNat = req.rangeMapName.bytes.length := by
    rw [hheader]
    exact Int.toNat_natCast _
  have hk : ctx.header.keyLen.toNat = req.key.length := by
    rw [hheader]
    exact Int.toNat_natCast _
  have hd : ctx.header.dataLen.toNat = req.data.length := by
    rw [hheader]
    exact Int.toNat_natCast _
  have hpay : req.payload
      = (req.rangeMapName.bytes ++ [0]) ++ (req.key ++ (req.timeval ++ req.data)) := by
    simp only [PonyRequest.payload, List.append_assoc]
  have hafter : ctx.recvBuf.drop (ctx.header.rangeMapNameLen.toNat + 1)
      = req.key ++ (req.timeval ++ req.data) := by
    rw [hbuf, hpay, hn]
    exact List.drop_left' (by simp)
  have htail : ctx.tail = req.timeval ++ req.data := by
    unfold BeeServiceCtx.tail
    rw [← List.drop_drop, hafter, hk]
    exact List.drop_left
  refine ⟨hop, hheader, Subtype.ext ?_, ?_, ?_, ?_⟩
  · show ctx.recvBuf.takeWhile (· ≠ 0) = req.rangeMapName.bytes
    rw [hbuf, hpay, List.append_assoc, List.takeWhile_append_of_pos]
    · simp
    · intro c hc
      have : c ≠ 0 := fun h => req.rangeMapName.property (h ▸ hc)
      simpa using this
  · unfold BeeServiceCtx.key
    rw [hafter, hk]
    exact List.take_left
  · unfold BeeServiceCtx.timeval
    rw [htail]
    exact List.take_left' hs.timeval
  · unfold BeeServiceCtx.data
    rw [htail, List.drop_left' hs.timeval, hd]
    exact List.take_length

end

/-! ## 接続の実行 -/

/-- 一つの接続。`pending` は `pony` が送ってまだ届いていない byte である。 -/
structure BeeLink where
  /-- 閉じた後は `none` -/
  conn : Option BeeConn
  sock : Sock
  pending : List UInt8
  dispatched : List BeeServiceCtx

/-- `pony` が要求を送り、bee が接続を受け付けたとき。 -/
def BeeLink.init (req : PonyRequest) : BeeLink where
  conn := some {}
  sock := {}
  pending := req.bytes
  dispatched := []

inductive LinkEvent where
  /-- `n` byte 届く -/
  | arrive (n : Nat)
  | wake (w : Wake)

def linkStep (link : BeeLink) : LinkEvent → BeeLink
  | .arrive n =>
    { link with
      sock := { link.sock with arrived := link.sock.arrived ++ link.pending.take n }
      pending := link.pending.drop n }
  | .wake w =>
    match link.conn with
    | none => link
    | some conn =>
      match beeSessionReceiveRequest w conn link.sock with
      | (.again conn, sock) => { link with conn := some conn, sock }
      | (.exx, sock) => { link with conn := none, sock }
      | (.merge _, sock) => { link with conn := none, sock }
      | (.dispatch ctx, sock) =>
        { link with conn := none, sock, dispatched := link.dispatched ++ [ctx] }

/-- 起こすのは READ か WRITE で、閉じる event は無い。 -/
def Wake.Ready (w : Wake) : Prop :=
  (hasBit w.eventBits esqEventBitRead = true ∨ hasBit w.eventBits esqEventBitWrite = true) ∧
    hasBit w.eventBits esqEventBitFdClose = false ∧ hasBit w.eventBits esqEventBitError = false ∧
    hasBit w.eventBits esqEventBitTimeout = false ∧ hasBit w.eventBits esqEventBitExit = false

instance (w : Wake) : Decidable w.Ready := inferInstanceAs (Decidable (_ ∧ _))

/--
正しく受け取れる起こし方。header の段階では届いた byte が要り、payload の段階に着くなら
`ESQ_EVENT_BIT_READ` が要る。`malloc` と `esq_session_set_socket_fd` は成功する。
-/
def Wake.Fits (w : Wake) (conn : BeeConn) (sock : Sock) : Prop :=
  w.rearm = true ∧
    match conn.ctx.lc with
    | .payload => hasBit w.eventBits esqEventBitRead = true
    | _ => sock.arrived ≠ [] ∧ (headerSize ≤ conn.ctx.offset + sock.arrived.length →
      hasBit w.eventBits esqEventBitRead = true ∧ w.malloc ≠ none)

instance (w : Wake) (conn : BeeConn) (sock : Sock) : Decidable (w.Fits conn sock) := by
  unfold Wake.Fits
  cases conn.ctx.lc <;> infer_instance

def framingOk (link : BeeLink) : LinkEvent → Prop
  | .arrive _ => True
  | .wake w => w.Ready ∧ ∀ conn, link.conn = some conn → w.Fits conn link.sock

/-- 要求は、揃ってから一つだけ、同じ中身で処理に渡る。 -/
structure Framed (req : PonyRequest) (link : BeeLink) : Prop where
  once : link.dispatched = [] ∨ ∃ ctx, link.dispatched = [ctx] ∧ SameRequest req ctx ∧
    link.sock.arrived = [] ∧ link.pending = []
  /-- 渡す前に閉じない -/
  stays : link.dispatched = [] → link.conn ≠ none
  /-- すべて届いてから起こされれば渡る -/
  progress : link.dispatched = [] → link.pending = [] → ∀ w, framingOk link (.wake w) →
    (linkStep link (.wake w)).dispatched ≠ []

/-! ## 段階 -/

structure AtHeader (req : PonyRequest) (arrived pending : List UInt8) (conn : BeeConn) (k : Nat) :
    Prop where
  offset : conn.ctx.offset = k
  lt : k < headerSize
  size : conn.headerBuf.length = headerSize
  read : conn.headerBuf.take k = req.header.bytes.take k
  stream : arrived ++ pending = req.bytes.drop k

structure AtPayload (req : PonyRequest) (arrived pending : List UInt8) (conn : BeeConn) (k : Nat) :
    Prop where
  offset : conn.ctx.offset = k
  lc : conn.ctx.lc = .payload
  header : conn.ctx.header = req.header
  opcode : conn.ctx.opcode = req.opcode
  payloadSize : conn.ctx.payloadSize = req.payload.length
  lt : k < req.payload.length
  size : conn.ctx.recvBuf.length = req.payload.length
  read : conn.ctx.recvBuf.take k = req.payload.take k
  stream : arrived ++ pending = req.payload.drop k

inductive FramingInv (req : PonyRequest) (link : BeeLink) : Prop where
  | header {conn : BeeConn} {k : Nat} (hconn : link.conn = some conn) (hd : link.dispatched = [])
      (hopen : link.sock.peerClosed = false ∧ link.sock.broken = false)
      (hlc : conn.ctx.lc = .start ∧ k = 0 ∨ conn.ctx.lc = .header)
      (h : AtHeader req link.sock.arrived link.pending conn k)
  | payload {conn : BeeConn} {k : Nat} (hconn : link.conn = some conn) (hd : link.dispatched = [])
      (hopen : link.sock.peerClosed = false ∧ link.sock.broken = false)
      (h : AtPayload req link.sock.arrived link.pending conn k)
  | done {ctx : BeeServiceCtx} (hconn : link.conn = none) (hd : link.dispatched = [ctx])
      (hsame : SameRequest req ctx) (hend : link.sock.arrived = [] ∧ link.pending = [])

/-! ## 部分的な読み取り -/

theorem splice_spec {buf xs bytes : List UInt8} {k : Nat} (hlen : buf.length = xs.length)
    (hbuf : buf.take k = xs.take k) (hbytes : bytes <+: xs.drop k) (hk : k ≤ xs.length) :
    (splice buf k bytes).length = xs.length ∧
      (splice buf k bytes).take (k + bytes.length) = xs.take (k + bytes.length) := by
  obtain ⟨t, ht⟩ := hbytes
  have hxs : xs = xs.take k ++ (bytes ++ t) := by
    rw [ht, List.take_append_drop]
  have hlt : (xs.take k).length = k := by
    rw [List.length_take]
    omega
  have hle : k + bytes.length ≤ xs.length := by
    have := congrArg List.length ht
    rw [List.length_append, List.length_drop] at this
    omega
  unfold splice
  rw [hbuf]
  constructor
  · simp only [List.length_append, List.length_drop, hlt]
    omega
  · have hpre : (xs.take k ++ bytes).length = k + bytes.length := by
      rw [List.length_append, hlt]
    rw [List.take_left' hpre]
    conv_rhs => rw [hxs, ← List.append_assoc]
    rw [List.take_left' hpre]

theorem splice_eq {buf xs bytes : List UInt8} {k : Nat} (hlen : buf.length = xs.length)
    (hbuf : buf.take k = xs.take k) (hbytes : bytes <+: xs.drop k) (hk : k ≤ xs.length)
    (hfull : bytes.length = xs.length - k) : splice buf k bytes = xs := by
  obtain ⟨hl, ht⟩ := splice_spec hlen hbuf hbytes hk
  have hend : k + bytes.length = xs.length := by omega
  rwa [hend, List.take_length, List.take_of_length_le hl.le] at ht

section

variable {req : PonyRequest} {w : Wake} {conn : BeeConn} {sock : Sock} {pending : List UInt8} {k : Nat}

theorem Sock.read_of_ne (h : sock.arrived ≠ []) {len : Nat} (hlen : len ≠ 0) : sock.read len
    = (.data (sock.arrived.take len), { sock with arrived := sock.arrived.drop len }) := by
  simp [Sock.read, h, hlen]

theorem Sock.read_of_nil (h : sock.arrived = []) (hopen : sock.peerClosed = false ∧ sock.broken = false)
    {len : Nat} (hlen : len ≠ 0) : sock.read len = (.wouldBlock, sock) := by
  simp [Sock.read, h, hlen, hopen.1, hopen.2]

theorem BeeConn.readAgain_of_rearm (h : w.rearm = true) : conn.readAgain w = .again conn := by
  simp [readAgain, h]

theorem beeCheckPayload_of_payload (hheader : conn.ctx.header = req.header)
    (hbuf : conn.ctx.recvBuf = req.payload) : beeCheckPayload conn = .dispatch conn.ctx := by
  have hn : conn.ctx.header.rangeMapNameLen.toNat = req.rangeMapName.bytes.length := by
    rw [hheader]
    exact Int.toNat_natCast _
  have hnul : req.payload.getD req.rangeMapName.bytes.length 1 = 0 := by
    simp [PonyRequest.payload, List.append_assoc]
  unfold beeCheckPayload
  rw [hn, hbuf, hnul, if_neg (not_not.mpr rfl)]

/-- **payload の段階は、届いた分を読み、揃えば渡し、揃わなければ待つ。** -/
theorem beeReceivePayload_spec (hs : req.Sendable) (hat : AtPayload req sock.arrived pending conn k)
    (hopen : sock.peerClosed = false ∧ sock.broken = false)
    (hread : hasBit w.eventBits esqEventBitRead = true) (hrearm : w.rearm = true) :
    (∃ conn' sock' k', beeReceivePayload w conn sock = (.again conn', sock') ∧
      AtPayload req sock'.arrived pending conn' k' ∧
      (sock'.peerClosed = false ∧ sock'.broken = false) ∧ pending ≠ []) ∨
    ∃ ctx sock', beeReceivePayload w conn sock = (.dispatch ctx, sock') ∧ SameRequest req ctx ∧
      sock'.arrived = [] ∧ pending = [] := by
  have hsize : conn.ctx.payloadSize.toNat = req.payload.length := by
    rw [hat.payloadSize]
    exact Int.toNat_natCast _
  have hlt := hat.lt
  have htotal : sock.arrived.length + pending.length = req.payload.length - k := by
    rw [← List.length_append, hat.stream, List.length_drop]
  unfold beeReceivePayload
  simp only [hread, if_true, hsize, hat.offset]
  by_cases harr : sock.arrived = []
  · -- まだ何も届いていない
    rw [Sock.read_of_nil harr hopen (by omega)]
    refine Or.inl ⟨conn, sock, k, ?_, hat, hopen, ?_⟩
    · simp only [BeeConn.readAgain_of_rearm hrearm]
    · rintro rfl
      rw [harr] at htotal
      simp only [List.length_nil] at htotal
      omega
  · rw [Sock.read_of_ne harr (by omega)]
    have hprefix : sock.arrived.take (req.payload.length - k) <+: req.payload.drop k := by
      rw [← hat.stream]
      exact (List.take_prefix _ _).trans (List.prefix_append _ _)
    obtain ⟨hlen, htake⟩ := splice_spec hat.size hat.read hprefix hlt.le
    by_cases hfull : (sock.arrived.take (req.payload.length - k)).length = req.payload.length - k
    · -- 残りがすべて届いている
      have hle : req.payload.length - k ≤ sock.arrived.length := by
        rw [List.length_take] at hfull
        omega
      have hpend : pending = [] := List.eq_nil_of_length_eq_zero (by omega)
      have hbuf : (conn.ctx.fill (sock.arrived.take (req.payload.length - k))).recvBuf
          = req.payload := by
        show splice conn.ctx.recvBuf conn.ctx.offset _ = _
        rw [hat.offset]
        exact splice_eq hat.size hat.read hprefix hlt.le hfull
      refine Or.inr ⟨conn.ctx.fill (sock.arrived.take (req.payload.length - k)),
        { sock with arrived := sock.arrived.drop (req.payload.length - k) }, ?_, ?_, ?_, hpend⟩
      · simp only [hfull, if_true]
        exact congrArg (·, _) (beeCheckPayload_of_payload hat.header hbuf)
      · exact sameRequest_of_payload hs hat.opcode hat.header hbuf
      · exact List.drop_eq_nil_of_le (by omega)
    · have hall : sock.arrived.take (req.payload.length - k) = sock.arrived := by
        refine List.take_of_length_le ?_
        rw [List.length_take] at hfull
        omega
      rw [hall] at hlen htake hfull ⊢
      have hdrop : sock.arrived.drop (req.payload.length - k) = [] :=
        List.drop_eq_nil_of_le (by omega)
      have hpend : pending = req.payload.drop (k + sock.arrived.length) := by
        rw [← List.drop_drop, ← hat.stream]
        exact (List.drop_left).symm
      refine Or.inl ⟨conn.setCtx ((conn.ctx.fill sock.arrived).advance sock.arrived.length),
        { sock with arrived := sock.arrived.drop (req.payload.length - k) },
        k + sock.arrived.length, ?_, ?_, hopen, ?_⟩
      · simp only [hfull, if_false]
        rw [BeeConn.readAgain_of_rearm hrearm]
      · refine ⟨congrArg (· + _) hat.offset, hat.lc, hat.header, hat.opcode, hat.payloadSize,
          by omega, ?_, ?_, ?_⟩
        · show (splice conn.ctx.recvBuf conn.ctx.offset sock.arrived).length = _
          rw [hat.offset, hlen]
        · show (splice conn.ctx.recvBuf conn.ctx.offset sock.arrived).take _ = _
          rw [hat.offset, htake]
        · show sock.arrived.drop (req.payload.length - k) ++ pending = _
          rw [hdrop, List.nil_append]
          exact hpend
      · rintro rfl
        simp only [List.length_nil] at htotal
        omega

theorem beeCheckHeader_spec (hs : req.Sendable) (hsize : req.payload.length < 2 ^ 31)
    (hbuf : conn.headerBuf = req.header.bytes) (hstream : sock.arrived ++ pending = req.payload)
    (hopen : sock.peerClosed = false ∧ sock.broken = false)
    (hread : hasBit w.eventBits esqEventBitRead = true) (hmalloc : w.malloc ≠ none)
    (hrearm : w.rearm = true) :
    (∃ conn' sock' k', beeCheckHeader w conn sock = (.again conn', sock') ∧
      AtPayload req sock'.arrived pending conn' k' ∧
      (sock'.peerClosed = false ∧ sock'.broken = false) ∧ pending ≠ []) ∨
    ∃ ctx sock', beeCheckHeader w conn sock = (.dispatch ctx, sock') ∧ SameRequest req ctx ∧
      sock'.arrived = [] ∧ pending = [] := by
  obtain ⟨mem, hmem⟩ := Option.ne_none_iff_exists'.mp hmalloc
  obtain ⟨hop, hsync⟩ := PonyRequest.opcode_masked hs
  have hps := PonyRequest.header_payloadSize hs hsize
  have hrecv : w.mallocRecvBuf req.header.payloadSize
      = some ((List.range req.payload.length).map mem) := by
    unfold Wake.mallocRecvBuf
    rw [hps, if_neg (by omega), hmem, Int.toNat_natCast]
    rfl
  have hpos : 0 < req.payload.length := by
    rw [PonyRequest.length_payload hs]
    omega
  have hsync' : beeOpTypeMask req.header.opcode ≠ beeOpSync := by
    rw [hop]
    exact hsync
  unfold beeCheckHeader
  rw [hbuf, PonyRequest.ofBytes_header hs]
  simp only [PonyRequest.header_accepted hs, Bool.not_true, Bool.false_eq_true, if_false, hsync',
    hrecv]
  rw [hps]
  refine beeReceivePayload_spec (k := 0) hs ⟨rfl, rfl, rfl, hop, rfl, hpos, ?_, ?_, ?_⟩ hopen hread
    hrearm
  · show ((List.range req.payload.length).map mem).length = _
    rw [List.length_map, List.length_range]
  · rw [List.take_zero, List.take_zero]
  · rw [hstream, List.drop_zero]

/-- **header の段階は、届いた分を読み、揃えば payload の段階へ進む。** -/
theorem beeReceiveHeader_spec (hs : req.Sendable) (hsize : req.payload.length < 2 ^ 31)
    (hat : AtHeader req sock.arrived pending conn k)
    (hopen : sock.peerClosed = false ∧ sock.broken = false) (hne : sock.arrived ≠ [])
    (hfits : headerSize ≤ k + sock.arrived.length →
      hasBit w.eventBits esqEventBitRead = true ∧ w.malloc ≠ none) (hrearm : w.rearm = true) :
    (∃ conn' sock' k', beeReceiveHeader w conn sock = (.again conn', sock') ∧
      conn'.ctx.lc = conn.ctx.lc ∧ AtHeader req sock'.arrived pending conn' k' ∧
      (sock'.peerClosed = false ∧ sock'.broken = false) ∧ pending ≠ []) ∨
    (∃ conn' sock' k', beeReceiveHeader w conn sock = (.again conn', sock') ∧
      AtPayload req sock'.arrived pending conn' k' ∧
      (sock'.peerClosed = false ∧ sock'.broken = false) ∧ pending ≠ []) ∨
    ∃ ctx sock', beeReceiveHeader w conn sock = (.dispatch ctx, sock') ∧ SameRequest req ctx ∧
      sock'.arrived = [] ∧ pending = [] := by
  have hlt := hat.lt
  have hhl := length_headerBytes req.header
  have hsplit : req.bytes.drop k = req.header.bytes.drop k ++ req.payload :=
    List.drop_append_of_le_length (by omega)
  have htotal : sock.arrived.length + pending.length = headerSize - k + req.payload.length := by
    rw [← List.length_append, hat.stream, hsplit, List.length_append, List.length_drop, hhl]
  have hprefix : sock.arrived.take (headerSize - k) <+: req.header.bytes.drop k := by
    have h1 : sock.arrived.take (headerSize - k) <+: req.header.bytes.drop k ++ req.payload := by
      rw [← hsplit, ← hat.stream]
      exact (List.take_prefix _ _).trans (List.prefix_append _ _)
    refine List.prefix_of_prefix_length_le h1 (List.prefix_append _ _) ?_
    rw [List.length_drop, hhl]
    exact List.length_take_le _ _
  have hlen0 : 0 < sock.arrived.length := List.length_pos_iff.mpr hne
  have hpos : ¬ ((sock.arrived.take (headerSize - k)).length : Int) ≤ 0 := by
    rw [List.length_take]
    omega
  have hread : osReadNb sock (headerSize - k)
      = (((sock.arrived.take (headerSize - k)).length : Int), sock.arrived.take (headerSize - k),
        { sock with arrived := sock.arrived.drop (headerSize - k) }) := by
    unfold osReadNb
    rw [Sock.read_of_ne hne (by omega)]
  unfold beeReceiveHeader
  simp only [hat.offset, hread, hpos, if_false]
  have hbl : conn.headerBuf.length = req.header.bytes.length := hat.size.trans hhl.symm
  by_cases hfull : (sock.arrived.take (headerSize - k)).length = headerSize - k
  · have hle : headerSize - k ≤ sock.arrived.length := by
      rw [List.length_take] at hfull
      omega
    have hbuf : splice conn.headerBuf k (sock.arrived.take (headerSize - k)) = req.header.bytes :=
      splice_eq hbl hat.read hprefix (by omega) (by rw [hfull, hhl])
    obtain ⟨hbit, hmalloc⟩ := hfits (by omega)
    have hstream : sock.arrived.drop (headerSize - k) ++ pending = req.payload := by
      have hd := congrArg (List.drop (headerSize - k)) hat.stream
      rw [hsplit, List.drop_append_of_le_length hle, List.drop_left' (by
        rw [List.length_drop, hhl])] at hd
      exact hd
    simp only [hfull, if_true]
    exact Or.inr (beeCheckHeader_spec hs hsize hbuf hstream hopen hbit hmalloc hrearm)
  · have hall : sock.arrived.take (headerSize - k) = sock.arrived := by
      refine List.take_of_length_le ?_
      rw [List.length_take] at hfull
      omega
    obtain ⟨hlen, htake⟩ := splice_spec hbl hat.read hprefix (by omega)
    rw [hall] at hlen htake hfull ⊢
    have hless : k + sock.arrived.length < headerSize := by
      have := (List.take_eq_self_iff _).mp hall
      omega
    have hdrop : sock.arrived.drop (headerSize - k) = [] := List.drop_eq_nil_of_le (by omega)
    simp only [hfull, if_false, BeeConn.readAgain_of_rearm hrearm]
    refine Or.inl ⟨_, _, k + sock.arrived.length, rfl, rfl, ?_, hopen, ?_⟩
    · refine ⟨congrArg (· + _) hat.offset, hless, hlen.trans hhl, htake, ?_⟩
      show sock.arrived.drop (headerSize - k) ++ pending = _
      rw [hdrop, List.nil_append, ← List.drop_drop, ← hat.stream]
      exact (List.drop_left).symm
    · rintro rfl
      simp only [List.length_nil] at htotal
      omega

end

/-! ## 一歩 -/

section

variable {req : PonyRequest} {link : BeeLink} {conn : BeeConn} {w : Wake} {k : Nat}

theorem beeSessionReceiveRequest_of_ready (hw : w.Ready) (conn : BeeConn) (sock : Sock) :
    beeSessionReceiveRequest w conn sock = beeResume w conn sock := by
  obtain ⟨-, h1, h2, h3, h4⟩ := hw
  simp [beeSessionReceiveRequest, h1, h2, h3, h4]

/-- 起こされた後も不変量は保たれ、すべて届いていれば要求は渡る。 -/
def WakeSpec (req : PonyRequest) (link : BeeLink) (w : Wake) : Prop :=
  FramingInv req (linkStep link (.wake w)) ∧
    (link.pending = [] → (linkStep link (.wake w)).dispatched ≠ [])

theorem wakeSpec_of_payload (hconn : link.conn = some conn) (hd : link.dispatched = [])
    (h : (∃ conn' sock' k',
        beeSessionReceiveRequest w conn link.sock = (.again conn', sock') ∧
        AtPayload req sock'.arrived link.pending conn' k' ∧
        (sock'.peerClosed = false ∧ sock'.broken = false) ∧ link.pending ≠ []) ∨
      ∃ ctx sock', beeSessionReceiveRequest w conn link.sock = (.dispatch ctx, sock') ∧
        SameRequest req ctx ∧ sock'.arrived = [] ∧ link.pending = []) : WakeSpec req link w := by
  unfold WakeSpec
  simp only [linkStep, hconn]
  rcases h with ⟨conn', sock', k', he, hat, hopen, hpend⟩ | ⟨ctx, sock', he, hsame, hend, hpend⟩
  · rw [he]
    exact ⟨.payload rfl hd hopen hat, fun hn => absurd hn hpend⟩
  · rw [he]
    refine ⟨.done rfl ?_ hsame ⟨hend, hpend⟩, fun _ => by simp⟩
    simp [hd]

theorem wakeSpec_of_header (hs : req.Sendable) (hsize : req.payload.length < 2 ^ 31)
    (hconn : link.conn = some conn) (hd : link.dispatched = [])
    (hopen : link.sock.peerClosed = false ∧ link.sock.broken = false) {conn1 : BeeConn}
    (he : beeSessionReceiveRequest w conn link.sock = beeReceiveHeader w conn1 link.sock)
    (hlc : conn1.ctx.lc = .header) (hat : AtHeader req link.sock.arrived link.pending conn1 k)
    (hne : link.sock.arrived ≠ []) (hfits : headerSize ≤ k + link.sock.arrived.length →
      hasBit w.eventBits esqEventBitRead = true ∧ w.malloc ≠ none) (hrearm : w.rearm = true) :
    WakeSpec req link w := by
  rcases beeReceiveHeader_spec hs hsize hat hopen hne hfits hrearm with
    ⟨conn', sock', k', hr, hlc', hat', hopen', hpend⟩ | h
  · unfold WakeSpec
    simp only [linkStep, hconn]
    rw [he, hr]
    exact ⟨.header rfl hd hopen' (Or.inr (hlc'.trans hlc)) hat', fun hn => absurd hn hpend⟩
  · rw [← he] at h
    exact wakeSpec_of_payload hconn hd h

/-- **条件を満たす起こし方では、受信は正しく進む。** -/
theorem FramingInv.wake (hs : req.Sendable) (hsize : req.payload.length < 2 ^ 31)
    (hinv : FramingInv req link) (hok : framingOk link (.wake w)) : WakeSpec req link w := by
  obtain ⟨hready, hfits⟩ := hok
  cases hinv with
  | @header conn k hconn hd hopen hlc hat =>
    obtain ⟨hrearm, hfit⟩ := hfits conn hconn
    have hstep := beeSessionReceiveRequest_of_ready hready conn link.sock
    unfold beeResume at hstep
    have hk := hat.offset
    subst hk
    rcases hlc with ⟨hlc, hk⟩ | hlc
    · simp only [hlc] at hfit hstep
      obtain ⟨hne, hfull⟩ := hfit
      refine wakeSpec_of_header hs hsize hconn hd hopen hstep rfl (k := 0) ?_ hne (hk ▸ hfull)
        hrearm
      rw [hk] at hat
      exact ⟨rfl, hat.lt, hat.size, hat.read, hat.stream⟩
    · simp only [hlc] at hfit hstep
      obtain ⟨hne, hfull⟩ := hfit
      exact wakeSpec_of_header hs hsize hconn hd hopen hstep hlc hat hne hfull hrearm
  | @payload conn k hconn hd hopen hat =>
    obtain ⟨hrearm, hfit⟩ := hfits conn hconn
    have hstep := beeSessionReceiveRequest_of_ready hready conn link.sock
    unfold beeResume at hstep
    simp only [hat.lc] at hfit hstep
    have hspec := beeReceivePayload_spec hs hat hopen hfit hrearm
    rw [← hstep] at hspec
    exact wakeSpec_of_payload hconn hd hspec
  | @done ctx hconn hd hsame hend =>
    unfold WakeSpec
    simp only [linkStep, hconn]
    exact ⟨.done hconn hd hsame hend, fun _ => by simp [hd]⟩

theorem FramingInv.arrive (hinv : FramingInv req link) (n : Nat) :
    FramingInv req (linkStep link (.arrive n)) := by
  have hstream : link.sock.arrived ++ link.pending.take n ++ link.pending.drop n
      = link.sock.arrived ++ link.pending := by
    rw [List.append_assoc, List.take_append_drop]
  cases hinv with
  | @header conn k hconn hd hopen hlc hat =>
    exact .header hconn hd hopen hlc
      ⟨hat.offset, hat.lt, hat.size, hat.read, hstream.trans hat.stream⟩
  | @payload conn k hconn hd hopen hat =>
    exact .payload hconn hd hopen ⟨hat.offset, hat.lc, hat.header, hat.opcode, hat.payloadSize,
      hat.lt, hat.size, hat.read, hstream.trans hat.stream⟩
  | @done ctx hconn hd hsame hend =>
    refine .done hconn hd hsame ⟨?_, ?_⟩
    · show link.sock.arrived ++ link.pending.take n = []
      rw [hend.1, hend.2, List.take_nil, List.append_nil]
    · show link.pending.drop n = []
      rw [hend.2, List.drop_nil]

theorem framingInv_init (req : PonyRequest) : FramingInv req (BeeLink.init req) := by
  refine .header rfl rfl ⟨rfl, rfl⟩ (Or.inl ⟨rfl, rfl⟩) ⟨rfl, by decide, rfl, ?_, rfl⟩
  rw [List.take_zero, List.take_zero]

theorem FramingInv.framed (hs : req.Sendable) (hsize : req.payload.length < 2 ^ 31)
    (hinv : FramingInv req link) : Framed req link where
  once := by
    cases hinv with
    | header _ hd => exact Or.inl hd
    | payload _ hd => exact Or.inl hd
    | done _ hd hsame hend => exact Or.inr ⟨_, hd, hsame, hend⟩
  stays hd' := by
    cases hinv with
    | header hconn => simp [hconn]
    | payload hconn => simp [hconn]
    | done _ hd => simp [hd] at hd'
  progress _ hpend w hok := (hinv.wake hs hsize hok).2 hpend

end

/--
**条件を満たす起こし方の列では、どう分かれて届いても、要求は一つだけ、揃ってから、同じ中身で渡る。**

`payload` の長さは `int` に収まる。
-/
theorem framing_run (req : PonyRequest) (hs : req.Sendable) (hsize : req.payload.length < 2 ^ 31)
    (es : List LinkEvent)
    (hok : Along (fun link e => some (linkStep link e)) framingOk (BeeLink.init req) es) :
    Framed req (es.foldl linkStep (BeeLink.init req)) := by
  refine FramingInv.framed hs hsize ?_
  refine runFrom_invariant (P := FramingInv req) (fun link e link' hinv hok he => ?_)
    (framingInv_init req) hok (runFrom_total linkStep es (BeeLink.init req))
  rw [Option.some.injEq] at he
  subst he
  cases e with
  | arrive n => exact hinv.arrive n
  | wake w => exact (hinv.wake hs hsize hok).1

def sampleSend : PonyRequest where
  opcode := beeOpDbSet
  rangeMapName := .ofBytes [97]
  key := [107]
  data := [118]
  timeval := List.replicate 16 1
  resultBufSize := none

theorem sampleSend_sendable : sampleSend.Sendable where
  opcode := Or.inr (Or.inl rfl)
  name_ne := by decide
  name_lt := by decide
  key_ne := by decide
  key_int := by decide
  data_int := by decide
  timeval := rfl
  resultBufSize := rfl

/-- event を一つ受けて起こされ、`malloc` は成功する。 -/
def Wake.on (bits : Nat) : Wake where
  eventBits := bits
  malloc := some fun _ => 255
  rearm := true

/-- header の途中で一度、payload の途中で二度起こされる。 -/
def sampleLinkEvents : List LinkEvent :=
  [.arrive 7, .wake (.on esqEventBitWrite), .arrive 20, .wake (.on esqEventBitRead),
    .wake (.on esqEventBitRead), .arrive 13, .wake (.on esqEventBitRead)]

theorem framingOk_wake_of {link : BeeLink} {w : Wake} (hready : w.Ready)
    (h : (link.conn.all fun conn => decide (w.Fits conn link.sock)) = true) :
    framingOk link (.wake w) := by
  refine ⟨hready, fun conn hconn => ?_⟩
  rw [hconn] at h
  simpa using h

theorem framing_run_sample :
    Framed sampleSend (sampleLinkEvents.foldl linkStep (BeeLink.init sampleSend)) := by
  refine framing_run sampleSend sampleSend_sendable (by decide) sampleLinkEvents ?_
  refine along_cons_of_eq rfl trivial (along_cons_of_eq rfl ?_
    (along_cons_of_eq rfl trivial (along_cons_of_eq rfl ?_ (along_cons_of_eq rfl ?_
      (along_cons_of_eq rfl trivial (along_cons_of_eq rfl ?_ trivial))))))
  all_goals exact framingOk_wake_of (by decide) (by decide +kernel)

/-- **何も届かないうちに WRITE で起こされると、要求を渡さずに閉じる。** -/
theorem early_wake_closes :
    (Wake.on esqEventBitWrite).Ready ∧
      ([.wake (.on esqEventBitWrite), .arrive 40, .wake (.on esqEventBitRead)].foldl linkStep
        (BeeLink.init sampleSend)).conn = none ∧
      ([.wake (.on esqEventBitWrite), .arrive 40, .wake (.on esqEventBitRead)].foldl linkStep
        (BeeLink.init sampleSend)).pending = [] ∧
      ([.wake (.on esqEventBitWrite), .arrive 40, .wake (.on esqEventBitRead)].foldl linkStep
        (BeeLink.init sampleSend)).dispatched = [] := by
  refine ⟨by decide, rfl, by decide, rfl⟩

end Esq
