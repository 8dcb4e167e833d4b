import Esq.Bee.PonyService
import Esq.Bee.Regions
import Esq.Bee.Reply

/-!
# monkey の返事

`bee/monkey.c` の `esq_bee_monkey_execute` と `bee_monkey`、`src/pony.c` の `pony_monkey` の返事を読む所。

script を動かすのは library である。`mkc_new_session`・`mkc_parse`・`mkc_go` の結果と、library が
`reply` に書く error の文章は外から与える。

`esq_bee_monkey_execute` は、結果が `reply` に収まるかを `>` と `<=` の `||` で調べる。これはいつも真なので、
buffer の結果は大きさに関わらず `reply` に写される。

`reply_length` は `reply` の領域の大きさなので、`reply` の長さで表す。
-/

namespace Esq

open Infra

/-! ## script の結果 -/

/-- `session->result`。`length` は `int` に収まる。 -/
inductive MkcResult where
  /-- `MKC_D_BUF` -/
  | buf (bytes : List UInt8) (length_lt : bytes.length < 2 ^ 31)
  /-- `MKC_D_INT` -/
  | int (integer : BitVec 32)
  /-- 他の種類 -/
  | other

structure MkcRun where
  /-- `mkc_new_session` が成功する -/
  newSession : Bool
  /-- `mkc_parse` の戻り値 -/
  parse : BitVec 32
  /-- `mkc_go` の戻り値 -/
  go : BitVec 32
  /-- `mkc_session_set_error_info_buffer` の buffer に書く文章 -/
  errorInfo : List UInt8
  result : MkcResult

/-- `__exx` に行くか、結果を写す所に着くかを決める `r`。 -/
def MkcRun.r (run : MkcRun) : Int :=
  if !run.newSession then esqErrorMemory
  else if run.parse ≠ 0 then run.parse.toInt
  else run.go.toInt

structure MonkeyTypes extends MkcTypes where
  void : Int

/-! ## esq_bee_monkey_execute -/

/-- `esq_bee_monkey_execute` の戻り値と、終わったときの `reply`、`*reply_length`、`*reply_type`。 -/
structure MonkeyExecuted where
  r : Int
  /-- `reply` に `memcpy` した byte -/
  copied : List UInt8 := []
  /-- `reply` から先の memory。`NULL` は `none` で表す -/
  reply : Option (List UInt8)
  replyLength : Int := 0
  replyType : Int

def copyMonkeyResult (types : MonkeyTypes) (result : MkcResult) (reply : List UInt8) :
    MonkeyExecuted :=
  match result with
  | .buf bytes _ =>
    if 0 < bytes.length ∨ bytes.length ≤ reply.length then
      { r := esqOk, copied := bytes, reply := some (splice reply 0 bytes),
        replyLength := bytes.length, replyType := types.buf }
    else { r := esqOk, reply := some reply, replyType := types.void }
  | .int integer =>
    if (valueBytes integer).length ≤ reply.length then
      { r := esqOk, copied := valueBytes integer, reply := some (splice reply 0 (valueBytes integer)),
        replyLength := (valueBytes integer).length, replyType := types.int }
    else { r := esqOk, reply := some reply, replyType := types.void }
  | .other => { r := esqOk, reply := some reply, replyType := types.void }

/-- `__exx`。library が書いた error の文章の長さを残す。 -/
def monkeyExecuteExx (types : MonkeyTypes) (run : MkcRun) (reply : List UInt8) : MonkeyExecuted :=
  let text := if run.newSession then run.errorInfo.take reply.length else []
  let reply := splice reply 0 text
  let l := (cstring reply).length
  { r := run.r, reply := some reply, replyLength := if l ≥ reply.length then 0 else l,
    replyType := types.void }

def esqBeeMonkeyExecute (types : MonkeyTypes) (run : MkcRun) (reply : Option (List UInt8)) :
    MonkeyExecuted :=
  match reply with
  | none => { r := run.r, reply := none, replyType := types.void }
  | some reply =>
    if run.r ≠ 0 then monkeyExecuteExx types run reply
    else copyMonkeyResult types run.result reply

/-! ## bee_monkey -/

/-- library。script と data から答えが決まる。data が無いときは空である。 -/
abbrev Mkc := List UInt8 → List UInt8 → MkcRun

def OnMco.MonkeyReplyFromBeeToPony.bytes (r : OnMco.MonkeyReplyFromBeeToPony) : List UInt8 :=
  structBytes [r.returnCode, r.resultLen, r.type]

/-- `malloc` した `reply`。要らないときは `none` である。 -/
def mallocMonkeyReply (mallocOk : Bool) (resultBufSize : Int) :
    Except Int (Option (List UInt8)) :=
  if resultBufSize < 0 then .error esqErrorParam
  else if resultBufSize > 0 then
    if mallocOk then .ok (some (List.replicate resultBufSize.toNat 0)) else .error esqErrorMemory
  else .ok none

def beeMonkeyExecute (types : MonkeyTypes) (mkc : Mkc) (mallocOk : Bool)
    (header : HeaderFromPonyToBee) (recvBuf : List UInt8) : Except Int MonkeyExecuted :=
  if header.keyLen ≤ 0 then .error esqErrorParam
  else if header.dataLen < 0 then .error esqErrorParam
  else
    match mallocMonkeyReply mallocOk header.resultBufSize with
    | .error r => .error r
    | .ok reply =>
      let script := header.keyRegion.read recvBuf
      .ok (esqBeeMonkeyExecute types
        (mkc (script.take (header.keyLen - 1).toNat) (header.dataRegion.read recvBuf)) reply)

def emptyMonkeyReply (types : MonkeyTypes) (r : Int) : List UInt8 :=
  OnMco.MonkeyReplyFromBeeToPony.bytes { returnCode := r, resultLen := 0, type := types.void }

def beeMonkeyWrite (types : MonkeyTypes) (executed : Except Int MonkeyExecuted) : List UInt8 :=
  match executed with
  | .error r => emptyMonkeyReply types r
  | .ok e =>
    if e.r ≠ 0 then emptyMonkeyReply types e.r
    else
      match e.reply with
      | none => emptyMonkeyReply types e.r
      | some reply =>
        if e.replyLength = 0 then emptyMonkeyReply types e.r
        else
          OnMco.MonkeyReplyFromBeeToPony.bytes
              { returnCode := e.r, resultLen := e.replyLength, type := e.replyType }
            ++ reply.take e.replyLength.toNat

/-! ## pony_monkey -/

/-- `pony_monkey` の戻り値、`*result_buf_size`、`result_buf` に入る byte。 -/
structure PonyMonkeyResult where
  r : Int
  size : Int
  result : List UInt8
deriving DecidableEq, Repr

/-- `pony_monkey` の、返事の header を読んだ後。`size` は `*result_buf_size` である。 -/
def ponyMonkeyReceiveResult (types : MonkeyTypes) (size : Int)
    (reply : OnMco.MonkeyReplyFromBeeToPony) (stream : List UInt8) : PonyMonkeyResult :=
  if reply.resultLen = 0 then { r := reply.returnCode, size := 0, result := [] }
  else if reply.returnCode ≠ esqOk then { r := reply.returnCode, size := 0, result := [] }
  else if size < reply.requiredLength types.toMkcTypes then
    { r := esqErrorSize, size := 0, result := [] }
  else
    let (r, result, _) := esqMcoSocketRead stream reply.resultLen
    if r ≠ 0 then { r, size := 0, result := [] }
    else
      { r := reply.returnCode, size := reply.resultLen,
        result := if reply.type = types.buf then splice result reply.resultLen.toNat [0] else result }

/-- `pony_monkey` の、返事を読む所から先。`result_buf` も `result_buf_size` も NULL でない。 -/
def ponyMonkeyReceive (types : MonkeyTypes) (size : Int) (stream : List UInt8) :
    PonyMonkeyResult :=
  let (r, bytes, stream) := esqMcoSocketRead stream OnMco.monkeyReplySize
  if r ≠ 0 then { r, size, result := [] }
  else ponyMonkeyReceiveResult types size (.ofBytes bytes) stream

/-! ## 約束 -/

def MkcResult.bytes : MkcResult → List UInt8
  | .buf bytes _ => bytes
  | .int integer => valueBytes integer
  | .other => []

/-- `result_buf` に入るべき byte。buffer には終端の NUL がつく。 -/
def MkcResult.stored : MkcResult → List UInt8
  | .buf bytes _ => bytes ++ [0]
  | .int integer => valueBytes integer
  | .other => []

def monkeyRun (mkc : Mkc) (header : HeaderFromPonyToBee) (recvBuf : List UInt8) : MkcRun :=
  mkc ((header.keyRegion.read recvBuf).take (header.keyLen - 1).toNat)
    (header.dataRegion.read recvBuf)

/-- `pony_monkey` は `m` byte の `result_buf` に結果をそのまま返すか、error を返す。 -/
structure MonkeyReturned (m : Int) (result : MkcResult) (out : PonyMonkeyResult) : Prop where
  inside : out.result.length ≤ m.toNat
  exact : out.r = esqOk → out.size = result.bytes.length ∧ out.result = result.stored

/--
`result_buf_size` が `m` の要求の返事が、`m` byte を越えない。`k` は、返事のうち接続が切れるまでに届いた
byte の数である。
-/
structure MonkeyBounded (types : MonkeyTypes) (m : Int) (result : MkcResult)
    (executed : Except Int MonkeyExecuted) : Prop where
  copied : ∀ e, executed = .ok e → e.copied.length ≤ m.toNat
  sent : ((beeMonkeyWrite types executed).drop OnMco.monkeyReplySize).length ≤ m.toNat
  returned : ∀ k, MonkeyReturned m result
    (ponyMonkeyReceive types m ((beeMonkeyWrite types executed).take k))

def MonkeyServed (mallocOk : Bool) (header : HeaderFromPonyToBee) (run : MkcRun) : Prop :=
  0 < header.keyLen ∧ 0 ≤ header.dataLen ∧
    (header.resultBufSize = 0 ∨ 0 < header.resultBufSize ∧ mallocOk = true) ∧ run.r = esqOk

/-- 結果が `m` byte の `reply` に収まり、`required_length` が桁あふれしない。 -/
def MonkeyFits (m : Int) : MkcResult → Prop
  | .buf bytes _ => 0 < bytes.length ∧ bytes.length ≤ m ∧
      ¬ ((bytes.length : Int) = 2 ^ 31 - 1 ∧ m = 2 ^ 31 - 1)
  | .int _ => 4 ≤ m
  | .other => True

/-! ## 返事の header -/

section

variable {types : MonkeyTypes} {m r a b c : Int} {rest : List UInt8}

theorem monkeyReply_ofBytes (a b c : Int) (rest : List UInt8) :
    OnMco.MonkeyReplyFromBeeToPony.ofBytes (structBytes [a, b, c] ++ rest)
      = { returnCode := toInt32 a, resultLen := toInt32 b, type := toInt32 c } := by
  unfold OnMco.MonkeyReplyFromBeeToPony.ofBytes
  rw [intAt_structBytes [a, b, c] rest 0 (by simp), intAt_structBytes [a, b, c] rest 1 (by simp),
    intAt_structBytes [a, b, c] rest 2 (by simp)]
  rfl

theorem ponyMonkeyReceive_append :
    ponyMonkeyReceive types m (structBytes [a, b, c] ++ rest)
      = ponyMonkeyReceiveResult types m
          { returnCode := toInt32 a, resultLen := toInt32 b, type := toInt32 c } rest := by
  have hread : esqMcoSocketRead (structBytes [a, b, c] ++ rest) OnMco.monkeyReplySize
      = (esqOk, structBytes [a, b, c], rest) :=
    esqMcoSocketRead_append (by decide) (length_structBytes _)
  have hof := monkeyReply_ofBytes a b c []
  rw [List.append_nil] at hof
  unfold ponyMonkeyReceive
  simp only [hread, hof, esqOk, ne_eq, not_true_eq_false, if_false]

theorem ponyMonkeyReceive_short {stream : List UInt8} (h : stream.length < OnMco.monkeyReplySize) :
    ponyMonkeyReceive types m stream = { r := esqErrorTimeout, size := m, result := [] } := by
  have hread : esqMcoSocketRead stream OnMco.monkeyReplySize = (esqErrorTimeout, [], []) := by
    unfold esqMcoSocketRead
    rw [if_neg (by decide), if_pos (Or.inr (by simpa using h))]
  unfold ponyMonkeyReceive
  simp only [hread]
  rw [if_pos (by decide)]

theorem monkeyReturned_error {result : MkcResult} {size : Int} (hr : r ≠ esqOk) :
    MonkeyReturned m result { r, size, result := [] } :=
  ⟨Nat.zero_le _, fun h => absurd h hr⟩

theorem monkeyReturned_cut {result : MkcResult} {body : List UInt8}
    (h : ∀ j, MonkeyReturned m result (ponyMonkeyReceiveResult types m
      { returnCode := toInt32 a, resultLen := toInt32 b, type := toInt32 c } (body.take j)))
    (k : Nat) :
    MonkeyReturned m result (ponyMonkeyReceive types m ((structBytes [a, b, c] ++ body).take k)) := by
  have hlen : (structBytes [a, b, c]).length = OnMco.monkeyReplySize := length_structBytes _
  by_cases hk : k < OnMco.monkeyReplySize
  · rw [ponyMonkeyReceive_short (by
      rw [List.length_take]
      exact Nat.lt_of_le_of_lt (Nat.min_le_left _ _) hk)]
    exact monkeyReturned_error (by decide)
  · rw [List.take_append, List.take_of_length_le (by omega), ponyMonkeyReceive_append]
    exact h _

/-! ## 二種類の返事 -/

theorem MkcResult.stored_eq_nil {result : MkcResult} (h : result.stored = []) :
    result.bytes = [] := by
  cases result with
  | buf bytes _ => simp [stored] at h
  | int integer => exact h
  | other => rfl

theorem ponyMonkeyReceiveResult_empty (a c : Int) (rest : List UInt8) :
    ponyMonkeyReceiveResult types m { returnCode := a, resultLen := toInt32 0, type := c } rest
      = { r := a, size := 0, result := [] } := if_pos rfl

theorem monkeyBounded_empty {result : MkcResult} {executed : Except Int MonkeyExecuted}
    (hcopied : ∀ e, executed = .ok e → e.copied = [])
    (hw : beeMonkeyWrite types executed = emptyMonkeyReply types r) (hr : toInt32 r = r) :
    MonkeyBounded types m result executed ↔ r ≠ esqOk ∨ result.stored = [] := by
  have hbytes : emptyMonkeyReply types r = structBytes [r, 0, types.void] ++ [] :=
    (List.append_nil _).symm
  constructor
  · intro h
    by_cases hok : r = esqOk
    · have hret := h.returned OnMco.monkeyReplySize
      rw [hw, hbytes, List.append_nil,
        List.take_of_length_le
          (show (structBytes [r, 0, types.void]).length ≤ OnMco.monkeyReplySize from le_rfl),
        ← List.append_nil (structBytes _), ponyMonkeyReceive_append, ponyMonkeyReceiveResult_empty,
        hr] at hret
      exact Or.inr (hret.exact hok).2.symm
    · exact Or.inl hok
  · intro h
    refine ⟨fun e he => by rw [hcopied e he]; exact Nat.zero_le _, ?_, fun k => ?_⟩
    · rw [hw, show (emptyMonkeyReply types r).drop OnMco.monkeyReplySize = [] from
        List.drop_eq_nil_of_le (show (structBytes [r, 0, types.void]).length ≤ _ from le_rfl)]
      exact Nat.zero_le _
    · rw [hw, hbytes]
      refine monkeyReturned_cut (fun j => ?_) k
      rw [ponyMonkeyReceiveResult_empty, hr]
      rcases h with hne | hst
      · exact monkeyReturned_error hne
      · exact ⟨Nat.zero_le _, fun _ => ⟨by rw [MkcResult.stored_eq_nil hst]; rfl, hst.symm⟩⟩

theorem esqMcoSocketRead_cut {body : List UInt8} {n : Nat} (hn : 0 < n) :
    esqMcoSocketRead body n
      = if body.length < n then (esqErrorTimeout, [], []) else (esqOk, body.take n, body.drop n) := by
  unfold esqMcoSocketRead
  rw [if_neg (by omega), Int.toNat_natCast]
  by_cases hb : body.length < n
  · rw [if_pos (Or.inr hb), if_pos hb]
  · rw [if_neg (by omega), if_neg hb]

/-- 種類が `c` の、長さ `n` の結果の `required_length`。 -/
def requiredBy (types : MonkeyTypes) (c : Int) (n : Nat) : Int :=
  if c = types.buf then toInt32 (n + 1) else n

theorem ponyMonkeyReceiveResult_filled {bytes body : List UInt8} (h0 : 0 < bytes.length) :
    ponyMonkeyReceiveResult types m { returnCode := esqOk, resultLen := bytes.length, type := c } body
      = if m < requiredBy types c bytes.length then { r := esqErrorSize, size := 0, result := [] }
        else if body.length < bytes.length then { r := esqErrorTimeout, size := 0, result := [] }
        else
          { r := esqOk, size := bytes.length,
            result := if c = types.buf then splice (body.take bytes.length) bytes.length [0]
              else body.take bytes.length } := by
  unfold ponyMonkeyReceiveResult
  rw [if_neg (by dsimp only; omega), if_neg (fun h => h rfl)]
  by_cases hm : m < requiredBy types c bytes.length
  · rw [if_pos hm]
    exact if_pos hm
  · rw [if_neg hm]
    refine (if_neg (show ¬ m < requiredBy types c bytes.length from hm)).trans ?_
    dsimp only
    rw [esqMcoSocketRead_cut h0, Int.toNat_natCast]
    by_cases hb : body.length < bytes.length
    · rw [if_pos hb, if_pos hb]
      rfl
    · rw [if_neg hb, if_neg hb]
      rfl

theorem monkeyBounded_filled {result : MkcResult} {e : MonkeyExecuted} {bytes : List UInt8}
    (hcopied : e.copied = bytes)
    (hw : beeMonkeyWrite types (.ok e) = structBytes [esqOk, bytes.length, c] ++ bytes)
    (h0 : 0 < bytes.length) (hlt : bytes.length < 2 ^ 31) (hc : toInt32 c = c)
    (hbytes : result.bytes = bytes)
    (hstored : result.stored = if c = types.buf then bytes ++ [0] else bytes) :
    MonkeyBounded types m result (.ok e) ↔
      bytes.length ≤ m ∧
        (m < requiredBy types c bytes.length ∨ result.stored.length ≤ m.toNat) := by
  have hlen : (structBytes [esqOk, (bytes.length : Int), c]).length = OnMco.monkeyReplySize :=
    length_structBytes _
  have hn : toInt32 (bytes.length : Int) = bytes.length :=
    toInt32_of_range (by omega) (by omega)
  have hnul : splice bytes bytes.length [0] = bytes ++ [0] := by
    simpa using splice_append bytes [] [0]
  have hstore : (if c = types.buf then splice bytes bytes.length [0] else bytes) = result.stored := by
    rw [hstored, hnul]
  constructor
  · intro h
    have hm : (bytes.length : Int) ≤ m := by
      have := h.copied e rfl
      rw [hcopied] at this
      omega
    refine ⟨hm, ?_⟩
    by_cases hreq : m < requiredBy types c bytes.length
    · exact Or.inl hreq
    · -- 返事の全体が届いたときを見る。
      have hret := (h.returned (OnMco.monkeyReplySize + bytes.length)).inside
      rw [hw, List.take_of_length_le (by rw [List.length_append, hlen]), ponyMonkeyReceive_append,
        hn, hc, show toInt32 esqOk = esqOk from rfl, ponyMonkeyReceiveResult_filled h0, if_neg hreq,
        if_neg (Nat.lt_irrefl _), List.take_length, hstore] at hret
      exact Or.inr hret
  · rintro ⟨hm, hreq⟩
    refine ⟨fun e' he => ?_, ?_, fun k => ?_⟩
    · cases he
      rw [hcopied]
      omega
    · rw [hw, List.drop_left' hlen]
      omega
    · rw [hw]
      refine monkeyReturned_cut (fun j => ?_) k
      rw [hn, hc, show toInt32 esqOk = esqOk from rfl, ponyMonkeyReceiveResult_filled h0]
      split
      next h => exact monkeyReturned_error (by decide)
      next h =>
        split
        next hj => exact monkeyReturned_error (by decide)
        next hj =>
          have htake : (bytes.take j).take bytes.length = bytes := by
            rw [List.length_take] at hj
            rw [List.take_of_length_le (show bytes.length ≤ j by omega), List.take_length]
          rw [htake, hstore]
          exact ⟨hreq.resolve_left h, fun _ => ⟨by rw [hbytes], rfl⟩⟩

/-! ## script が動かないとき -/

theorem MkcRun.toInt32_r (run : MkcRun) : toInt32 run.r = run.r := by
  unfold MkcRun.r
  split
  · rfl
  · split
    · exact toInt32_of_range (BitVec.le_toInt _) (BitVec.toInt_lt)
    · exact toInt32_of_range (BitVec.le_toInt _) (BitVec.toInt_lt)

structure MonkeyFailed (types : MonkeyTypes) (executed : Except Int MonkeyExecuted) : Prop where
  copied : ∀ e, executed = .ok e → e.copied = []
  write : ∃ r, toInt32 r = r ∧ r ≠ esqOk ∧ beeMonkeyWrite types executed = emptyMonkeyReply types r

theorem monkeyFailed_error (hr : toInt32 r = r) (hne : r ≠ esqOk) :
    MonkeyFailed types (.error r) :=
  ⟨fun _ he => (nomatch he), r, hr, hne, rfl⟩

theorem monkeyFailed_run {run : MkcRun} (hne : run.r ≠ esqOk) (reply : Option (List UInt8)) :
    MonkeyFailed types (.ok (esqBeeMonkeyExecute types run reply)) := by
  have hr : (esqBeeMonkeyExecute types run reply).r = run.r ∧
      (esqBeeMonkeyExecute types run reply).copied = [] := by
    cases reply with
    | none => exact ⟨rfl, rfl⟩
    | some reply =>
      have hexx : esqBeeMonkeyExecute types run (some reply) = monkeyExecuteExx types run reply :=
        if_pos hne
      rw [hexx]
      exact ⟨rfl, rfl⟩
  refine ⟨fun e he => ?_, run.r, run.toInt32_r, hne, ?_⟩
  · cases he
    exact hr.2
  · unfold beeMonkeyWrite
    dsimp only
    rw [hr.1]
    exact if_pos hne

section

variable {mkc : Mkc} {mallocOk : Bool} {header : HeaderFromPonyToBee} {recvBuf : List UInt8}

theorem beeMonkeyExecute_eq (hk : 0 < header.keyLen) (hd : 0 ≤ header.dataLen) :
    beeMonkeyExecute types mkc mallocOk header recvBuf
      = (mallocMonkeyReply mallocOk header.resultBufSize).map
          (esqBeeMonkeyExecute types (monkeyRun mkc header recvBuf)) := by
  unfold beeMonkeyExecute
  rw [if_neg (by omega), if_neg (by omega)]
  cases mallocMonkeyReply mallocOk header.resultBufSize <;> rfl

theorem monkeyFailed_of_not_served
    (h : ¬ MonkeyServed mallocOk header (monkeyRun mkc header recvBuf)) :
    MonkeyFailed types (beeMonkeyExecute types mkc mallocOk header recvBuf) := by
  have hparam : MonkeyFailed types (.error esqErrorParam) :=
    monkeyFailed_error rfl (by decide)
  by_cases hk : header.keyLen ≤ 0
  · rw [beeMonkeyExecute, if_pos hk]
    exact hparam
  by_cases hd : header.dataLen < 0
  · rw [beeMonkeyExecute, if_neg hk, if_pos hd]
    exact hparam
  rw [beeMonkeyExecute_eq (by omega) (by omega)]
  unfold mallocMonkeyReply
  by_cases hm : header.resultBufSize < 0
  · rw [if_pos hm]
    exact hparam
  rw [if_neg hm]
  by_cases hpos : header.resultBufSize > 0
  · rw [if_pos hpos]
    cases hok : mallocOk with
    | false => exact monkeyFailed_error rfl (by decide)
    | true =>
      refine monkeyFailed_run (fun hr => h ?_) _
      exact ⟨by omega, by omega, Or.inr ⟨hpos, hok⟩, hr⟩
  · rw [if_neg hpos]
    exact monkeyFailed_run (fun hr => h ⟨by omega, by omega, Or.inl (by omega), hr⟩) _

/-! ## 結果を返すとき -/

theorem monkeyBounded_discarded {run : MkcRun} (hr : run.r = esqOk) :
    MonkeyBounded types 0 run.result (.ok (esqBeeMonkeyExecute types run none)) ↔
      MonkeyFits 0 run.result := by
  rw [monkeyBounded_empty (r := esqOk) (fun e he => by cases he; rfl) (by
    unfold beeMonkeyWrite esqBeeMonkeyExecute
    rw [hr]
    rfl) rfl]
  cases run.result with
  | buf bytes _ =>
    simp only [MkcResult.stored, MonkeyFits, List.append_eq_nil_iff]
    constructor
    · rintro (h | h)
      · exact absurd rfl h
      · exact absurd h.2 (List.cons_ne_nil _ _)
    · intro h
      omega
  | int integer =>
    constructor
    · rintro (h | h)
      · exact absurd rfl h
      · exact absurd h (List.cons_ne_nil _ _)
    · intro h
      exact absurd (show (4 : Int) ≤ 0 from h) (by decide)
  | other => exact ⟨fun _ => trivial, fun _ => Or.inr rfl⟩

theorem monkeyBounded_buf {bytes reply : List UInt8} (hlt : bytes.length < 2 ^ 31) (hpos : 0 < m) :
    MonkeyBounded types m (.buf bytes hlt) (.ok (copyMonkeyResult types (.buf bytes hlt) reply)) ↔
      MonkeyFits m (.buf bytes hlt) := by
  have htype : toInt32 (types.buf : Int) = types.buf :=
    toInt32_of_range (by omega) (by have := types.buf_lt; omega)
  -- 大きさの検査は、長さが 0 でも正でも通る。
  have hcopy : copyMonkeyResult types (.buf bytes hlt) reply
      = { r := esqOk, copied := bytes, reply := some (splice reply 0 bytes),
          replyLength := bytes.length, replyType := types.buf } := if_pos (by omega)
  rw [hcopy]
  by_cases h0 : bytes.length = 0
  · have hnil : bytes = [] := List.length_eq_zero_iff.mp h0
    rw [monkeyBounded_empty (r := esqOk) (fun e he => by cases he; exact hnil) (by
      unfold beeMonkeyWrite
      simp only [h0]
      rfl) rfl]
    constructor
    · rintro (h | h)
      · exact absurd rfl h
      · simp [MkcResult.stored] at h
    · intro h
      exact absurd h.1 (by omega)
  · have hsplice : (splice reply 0 bytes).take bytes.length = bytes := by
      unfold splice
      rw [List.take_zero, List.nil_append, List.take_left]
    rw [monkeyBounded_filled (show _ = bytes from rfl) (by
      unfold beeMonkeyWrite
      dsimp only
      rw [if_neg (fun h => h rfl), if_neg (by omega), Int.toNat_natCast, hsplice]
      rfl) (by omega) hlt htype rfl (if_pos rfl).symm]
    have hstored : (MkcResult.buf bytes hlt).stored.length = bytes.length + 1 := by
      simp [MkcResult.stored]
    rw [hstored]
    unfold MonkeyFits requiredBy
    rw [if_pos rfl, toInt32_eq]
    omega

theorem monkeyBounded_int {integer : BitVec 32} {reply : List UInt8} (hm : reply.length = m.toNat)
    (hpos : 0 < m) :
    MonkeyBounded types m (.int integer) (.ok (copyMonkeyResult types (.int integer) reply)) ↔
      MonkeyFits m (.int integer) := by
  have htype : toInt32 (types.int : Int) = types.int :=
    toInt32_of_range (by omega) (by have := types.int_lt; omega)
  have hne : ¬ (types.int : Int) = types.buf := fun h => types.int_ne_buf (by omega)
  have hlen : (valueBytes integer).length = 4 := rfl
  by_cases h4 : (valueBytes integer).length ≤ reply.length
  · have hcopy : copyMonkeyResult types (.int integer) reply
        = { r := esqOk, copied := valueBytes integer,
            reply := some (splice reply 0 (valueBytes integer)),
            replyLength := (valueBytes integer).length, replyType := types.int } := if_pos h4
    have hsplice : (splice reply 0 (valueBytes integer)).take (valueBytes integer).length
        = valueBytes integer := by
      unfold splice
      rw [List.take_zero, List.nil_append, List.take_left]
    rw [hcopy, monkeyBounded_filled (show _ = valueBytes integer from rfl) (by
      unfold beeMonkeyWrite
      dsimp only
      rw [if_neg (fun h => h rfl), if_neg (by omega), Int.toNat_natCast, hsplice]
      rfl) (by omega) (by omega) htype rfl (if_neg hne).symm]
    unfold MonkeyFits requiredBy
    rw [if_neg hne, show (MkcResult.int integer).stored.length = 4 from rfl]
    omega
  · have hcopy : copyMonkeyResult types (.int integer) reply
        = { r := esqOk, reply := some reply, replyType := types.void } := if_neg h4
    rw [hcopy, monkeyBounded_empty (r := esqOk) (fun e he => by cases he; rfl) rfl rfl]
    constructor
    · rintro (h | h)
      · exact absurd rfl h
      · exact absurd h (List.cons_ne_nil _ _)
    · intro h
      exact absurd (show 4 ≤ m from h) (by omega)

theorem monkeyBounded_copy {reply : List UInt8} (hm : reply.length = m.toNat) (hpos : 0 < m)
    (result : MkcResult) :
    MonkeyBounded types m result (.ok (copyMonkeyResult types result reply)) ↔
      MonkeyFits m result := by
  cases result with
  | buf bytes hlt => exact monkeyBounded_buf hlt hpos
  | int integer => exact monkeyBounded_int hm hpos
  | other =>
    rw [monkeyBounded_empty (r := esqOk) (fun e he => by cases he; rfl) rfl rfl]
    exact ⟨fun _ => trivial, fun _ => Or.inr rfl⟩

end

end

/-! ## 例 -/

def MonkeyTypes.sample : MonkeyTypes := { MkcTypes.sample with void := 3 }

def MkcRun.sample : MkcRun where
  newSession := true
  parse := 0
  go := 0
  errorInfo := []
  result := .buf [1, 2] (by decide)

def HeaderFromPonyToBee.sampleMonkey : HeaderFromPonyToBee where
  opcode := beeOpMonkey
  rangeMapNameLen := 1
  keyLen := 1
  dataLen := 0
  resultBufSize := 1

end Esq
