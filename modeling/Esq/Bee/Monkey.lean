import Esq.Basic
import Esq.Bee.BucketKey
import Esq.Libs.Sscanf

/-!
# monkey の引数

`src/pony.c` の `pony_monkey_ctx_add_*_param` と `pony_monkey_send_data`、`bee/monkey.c` の
`esq_mkc_get_session_param_by_name`。

引数は一つずつ、4 byte の head、名前と NUL、値の順に並ぶ。head は種類、名前の長さ、値の長さを
1 byte、1 byte、2 byte に詰める。受け手は head を辿って、名前の一致する最初の引数を探す。

読み戻せない引数が三種類ある。

* 長さが 255 byte 以上の名前。head の 1 byte に収まらない。
* 最後でない空の buffer。`esq_mco_socket_write` は 0 byte を書けずに諦め、残りを送らない。
* 下位三つの byte のどれかの最上位 bit が立ち、その上の byte がすべて `0xff` ではない整数。
  受け手は `char` のまま shift するので、符号が上の byte に広がる。
-/

namespace Esq

/-! ## 種類 -/

/-- `monkeycall.h` の `MKC_D_INT`、`MKC_D_BUF`、`MKC_D_ID`。互いに異なり、2 bit に収まる。 -/
structure MkcTypes where
  int : Nat
  buf : Nat
  id : Nat
  int_lt : int < 4
  buf_lt : buf < 4
  id_lt : id < 4
  int_ne_buf : int ≠ buf
  int_ne_id : int ≠ id
  buf_ne_id : buf ≠ id

/-- `esq_mkc_get_session_param_by_name` の戻り値と、`*int_value`、`*buf`、`*buf_len`。 -/
inductive MkcParam where
  /-- `MKC_D_VOID` -/
  | void
  /-- `MKC_D_INT` -/
  | int (value : BitVec 32)
  /-- `MKC_D_BUF` -/
  | buf (bytes : List UInt8)
  /-- `MKC_D_ID` -/
  | id (bytes : List UInt8)
deriving DecidableEq, Repr

/-! ## 引数を積む -/

structure PonyMonkeyParam where
  name : CStr
  data : List UInt8
  dataLength : Nat
  /-- 終端の NUL を含む -/
  nameLength : Nat
  type : Nat
  value : BitVec 32

def ponyMonkeyCtxMagic : Nat := 0xAEEA1253

def maxValues : Int := 20

/-- `pony_monkey_ctx_t`。`values_cnt` は `params` の長さである。 -/
structure PonyMonkeyCtx where
  valuesMax : Int
  magic : Nat
  params : List PonyMonkeyParam

def ponyMonkeyCtxNew (valuesMax : Int) : Option PonyMonkeyCtx :=
  if maxValues < valuesMax then none
  else some { valuesMax, magic := ponyMonkeyCtxMagic, params := [] }

def ponyMonkeyCtxAddIntParam (types : MkcTypes) (ctx : PonyMonkeyCtx) (name : CStr)
    (value : BitVec 32) : Except Fault (Int × PonyMonkeyCtx) :=
  if ctx.magic ≠ ponyMonkeyCtxMagic then .error .designError
  else if ctx.valuesMax ≤ ctx.params.length then .error .designError
  else
    let param : PonyMonkeyParam :=
      { name, data := [], dataLength := 4, nameLength := name.bytes.length + 1,
        type := types.int, value }
    .ok (esqOk, { ctx with params := ctx.params ++ [param] })

/-- `__pony_monkey_ctx_add_buf_param`。`(unsigned)buf_len > 0xffff` は、負の長さも退ける。 -/
def ponyMonkeyCtxAddBufParamAs (ctx : PonyMonkeyCtx) (name : CStr) (buf : List UInt8)
    (bufLen : Int) (type : Nat) : Except Fault (Int × PonyMonkeyCtx) :=
  if ctx.magic ≠ ponyMonkeyCtxMagic then .error .designError
  else if bufLen < 0 ∨ 0xffff < bufLen then .ok (esqErrorSize, ctx)
  else if ctx.valuesMax ≤ ctx.params.length then .error .designError
  else
    let param : PonyMonkeyParam :=
      { name, data := buf, dataLength := bufLen.toNat, nameLength := name.bytes.length + 1,
        type, value := 0 }
    .ok (esqOk, { ctx with params := ctx.params ++ [param] })

def ponyMonkeyCtxAddBufParam (types : MkcTypes) (ctx : PonyMonkeyCtx) (name : CStr)
    (buf : List UInt8) (bufLen : Int) : Except Fault (Int × PonyMonkeyCtx) :=
  ponyMonkeyCtxAddBufParamAs ctx name buf bufLen types.buf

def ponyMonkeyCtxAddStrParam (types : MkcTypes) (ctx : PonyMonkeyCtx) (name : CStr)
    (str : List UInt8) (strLen : Int) : Except Fault (Int × PonyMonkeyCtx) :=
  ponyMonkeyCtxAddBufParamAs ctx name str strLen types.id

/-! ## 送信 -/

/-- 非同期の socket。`writeNb n len` は `n` 回目の `os_write_nb(fd, buf, len)` の戻り値である。 -/
structure OsSocket where
  writeNb : Nat → Nat → Int
  /-- `esq_session_set_socket_fd` の戻り値 -/
  setSocketFd : Nat → Int
  /-- 渡した長さより多くは書かない -/
  writeNb_le : ∀ n len, writeNb n len ≤ len

structure Wire where
  calls : Nat
  sent : List UInt8

def mcoSocketIoMaxRetry : Nat := 3

/-- `esq_mco_socket_write` の loop。`buf` は進めないので、一部だけ書けたときは先頭から書き直す。 -/
def esqMcoSocketWriteLoop (os : OsSocket) (buf : List UInt8) (cl offset : Nat) (w : Wire) :
    Int × Wire :=
  if mcoSocketIoMaxRetry ≤ cl then (esqErrorLibcall, w)
  else
    let r := os.writeNb w.calls buf.length
    let w : Wire := { calls := w.calls + 1, sent := w.sent ++ buf.take r.toNat }
    if r = 0 then
      let r := os.setSocketFd w.calls
      if r ≠ 0 then (r, w) else esqMcoSocketWriteLoop os buf (cl + 1) offset w
    else if r = -1 then (esqErrorLibcall, w)
    else if 0 < r then
      if offset + r.toNat = buf.length then (esqOk, w)
      else if buf.length < offset + r.toNat then (esqErrorLibcall, w)
      else esqMcoSocketWriteLoop os buf cl (offset + r.toNat) w
    else (esqErrorLibcall, w)
termination_by (mcoSocketIoMaxRetry - cl) + (buf.length - offset)

def esqMcoSocketWrite (os : OsSocket) (buf : List UInt8) (w : Wire) : Int × Wire :=
  esqMcoSocketWriteLoop os buf 0 0 w

def valueBytes (v : BitVec 32) : List UInt8 :=
  [0, 1, 2, 3].map fun i => UInt8.ofBitVec (v.extractLsb' (8 * i) 8)

namespace PonyMonkeyParam

variable (param : PonyMonkeyParam)

def header : List UInt8 :=
  [UInt8.ofNat ((param.type <<< 2) &&& 0xc), UInt8.ofNat param.nameLength,
    UInt8.ofNat ((param.dataLength >>> 8) &&& 0xff), UInt8.ofNat (param.dataLength &&& 0xff)]

def nameBytes : List UInt8 := (param.name.bytes ++ [0]).take param.nameLength

def dataBytes : List UInt8 := param.data.take param.dataLength

end PonyMonkeyParam

def sendValue (types : MkcTypes) (os : OsSocket) (param : PonyMonkeyParam) (w : Wire) :
    Except Fault (Int × Wire) :=
  if types.int = param.type then .ok (esqMcoSocketWrite os (valueBytes param.value) w)
  else if types.buf = param.type then .ok (esqMcoSocketWrite os param.dataBytes w)
  else if types.id = param.type then .ok (esqMcoSocketWrite os param.dataBytes w)
  else .error .designError

def ponyMonkeySendData (types : MkcTypes) (os : OsSocket) :
    List PonyMonkeyParam → Wire → Except Fault (Int × Wire)
  | [], w => .ok (esqOk, w)
  | param :: params, w =>
    let (r, w) := esqMcoSocketWrite os param.header w
    if r ≠ 0 then .ok (esqErrorLibcall, w)
    else
      let (r, w) := esqMcoSocketWrite os param.nameBytes w
      if r ≠ 0 then .ok (r, w)
      else do
        let (r, w) ← sendValue types os param w
        if r ≠ 0 then .ok (r, w) else ponyMonkeySendData types os params w

def ponyMonkeyGetDataLength (params : List PonyMonkeyParam) : Nat :=
  params.foldl (fun s param => s + 4 + param.dataLength + param.nameLength) 0

/-! ## 受信 -/

/-- `v |= (p[offset + i] << s)` の loop。`p[offset + i]` は符号つきの `char` である。 -/
def intOfChars (p : List UInt8) : BitVec 32 :=
  [0, 1, 2, 3].foldl
    (fun v i => v ||| ((p.getD i 0).toBitVec.signExtend 32 <<< (8 * i))) 0

/-- 名前が一致した引数の値。`value` は、値の始まりから先である。 -/
def mkcParamValue (types : MkcTypes) (type datalen : Nat) (value : List UInt8) : MkcParam :=
  if types.int = type then .int (intOfChars value)
  else if types.buf = type then .buf (value.take datalen)
  else if types.id = type then .id (value.take datalen)
  else .void

/-- `esq_mkc_get_session_param_by_name`。`p` は `payload + offset` から先である。 -/
def esqMkcGetSessionParamByName (types : MkcTypes) (name : List UInt8) (p : List UInt8) :
    MkcParam :=
  match p with
  | h0 :: h1 :: h2 :: h3 :: rest =>
    -- `l - offset <= SIZEOFHEAD`：head だけでは足りない
    if rest = [] then .void
    else
      let type := (h0.toNat &&& 0xc) >>> 2
      let namelen := h1.toNat
      let datalen := (h2.toNat <<< 8) + h3.toNat
      if rest.length < namelen + datalen then .void
      else if name.length + 1 ≠ namelen ∨ memcmp name (rest.take name.length) ≠ 0 then
        esqMkcGetSessionParamByName types name (rest.drop (namelen + datalen))
      else mkcParamValue types type datalen (rest.drop namelen)
  | _ => .void
termination_by p.length
decreasing_by
  simp only [List.length_drop, List.length_cons]
  omega

/-! ## 引数の列 -/

/-- `pony_monkey_ctx_add_*_param` の呼び出し。長さには buffer の長さを渡す。 -/
inductive MonkeyArg where
  | int (name : CStr) (value : BitVec 32)
  | buf (name : CStr) (bytes : List UInt8)
  | str (name : CStr) (bytes : List UInt8)

namespace MonkeyArg

def name : MonkeyArg → CStr
  | int name _ | buf name _ | str name _ => name

def param : MonkeyArg → MkcParam
  | int _ value => .int value
  | buf _ bytes => .buf bytes
  | str _ bytes => .id bytes

def payload : MonkeyArg → List UInt8
  | int _ value => valueBytes value
  | buf _ bytes | str _ bytes => bytes

def add (types : MkcTypes) (ctx : PonyMonkeyCtx) :
    MonkeyArg → Except Fault (Int × PonyMonkeyCtx)
  | int name value => ponyMonkeyCtxAddIntParam types ctx name value
  | buf name bytes => ponyMonkeyCtxAddBufParam types ctx name bytes bytes.length
  | str name bytes => ponyMonkeyCtxAddStrParam types ctx name bytes bytes.length

end MonkeyArg

/-- 引数を順に積む。どれかが `ESQ_OK` を返さなければ `none`。 -/
def addParams (types : MkcTypes) : PonyMonkeyCtx → List MonkeyArg → Option PonyMonkeyCtx
  | ctx, [] => some ctx
  | ctx, arg :: args =>
    match arg.add types ctx with
    | .ok (r, ctx) => if r = esqOk then addParams types ctx args else none
    | .error _ => none

/-- `values_max` 個まで入る ctx に、引数の列を積んだもの。 -/
def acceptedParams (types : MkcTypes) (valuesMax : Int) (args : List MonkeyArg) :
    Option PonyMonkeyCtx :=
  (ponyMonkeyCtxNew valuesMax).bind fun ctx => addParams types ctx args

/-- 名前の下に最初に積んだ引数。無ければ `void`。 -/
def firstNamed (args : List MonkeyArg) (name : List UInt8) : MkcParam :=
  match args with
  | [] => .void
  | arg :: args => if arg.name.bytes = name then arg.param else firstNamed args name

/-- `pony_monkey_send_data` が書いた byte から、どの名前の引数も元の種類と値に読み戻せる。
書いた長さは `pony_monkey_get_data_length` に等しい。 -/
def ParamsRoundTrip (types : MkcTypes) (os : OsSocket) (args : List MonkeyArg)
    (ctx : PonyMonkeyCtx) : Prop :=
  ∃ r w, ponyMonkeySendData types os ctx.params { calls := 0, sent := [] } = .ok (r, w)
    ∧ (∀ name, esqMkcGetSessionParamByName types name w.sent = firstNamed args name)
    ∧ w.sent.length = ponyMonkeyGetDataLength ctx.params

/-- byte の最上位 bit が立つなら、その上の bit もすべて立つ。 -/
def SignSafe (v : BitVec 32) : Prop :=
  ∀ k < 3, v.getLsbD (8 * k + 7) = true → ∀ j < 32, 8 * k + 8 ≤ j → v.getLsbD j = true

instance (v : BitVec 32) : Decidable (SignSafe v) :=
  inferInstanceAs (Decidable (∀ _ < 3, _ → _))

/-- 空でない buffer は、`EAGAIN` が二度まで続いた後に、一度に全部書ける。 -/
structure OsSocket.Whole (os : OsSocket) : Prop where
  all_or_none : ∀ n len, 0 < len → os.writeNb n len = 0 ∨ os.writeNb n len = len
  soon : ∀ n len, 0 < len →
    os.writeNb n len = len ∨ os.writeNb (n + 1) len = len ∨ os.writeNb (n + 2) len = len
  armed : ∀ n, os.setSocketFd n = 0

/-! ## 整数の読み戻し -/

theorem getLsbD_signedByte (v : BitVec 32) (i : Nat) {j : Nat} (hj : j < 32) :
    ((v.extractLsb' (8 * i) 8).signExtend 32 <<< (8 * i)).getLsbD j = true
      ↔ 8 * i ≤ j ∧
        if j < 8 * i + 8 then v.getLsbD j = true else v.getLsbD (8 * i + 7) = true := by
  rw [BitVec.getLsbD_shiftLeft, BitVec.getLsbD_signExtend]
  by_cases h : 8 * i ≤ j
  · by_cases h8 : j < 8 * i + 8
    · have hlt : j - 8 * i < 8 := by omega
      have hadd : 8 * i + (j - 8 * i) = j := by omega
      simp [h, h8, hj, hlt, hadd]
      omega
    · have hlt : ¬ j - 8 * i < 8 := by omega
      have h32 : j - 8 * i < 32 := by omega
      have hmsb : (v.extractLsb' (8 * i) 8).msb = v.getLsbD (8 * i + 7) := by
        rw [BitVec.msb_eq_getLsbD_last]
        simp
      simp [h, h8, hj, hlt, h32, hmsb]
  · simp [h]

theorem getLsbD_intOfChars (v : BitVec 32) {j : Nat} (hj : j < 32) :
    (intOfChars (valueBytes v)).getLsbD j = true
      ↔ v.getLsbD j = true ∨ ∃ k < 3, v.getLsbD (8 * k + 7) = true ∧ 8 * k + 8 ≤ j := by
  simp only [intOfChars, valueBytes, List.map_cons, List.map_nil, List.foldl_cons,
    List.foldl_nil, List.getD_cons_zero, List.getD_cons_succ, BitVec.getLsbD_or, Bool.or_eq_true, getLsbD_signedByte _ _ hj, BitVec.ofNat_eq_ofNat,
    BitVec.getLsbD_zero, Bool.false_eq_true, false_or]
  constructor
  · rintro (((⟨h1, h2⟩ | ⟨h1, h2⟩) | ⟨h1, h2⟩) | ⟨h1, h2⟩)
    all_goals split at h2
    · exact .inl h2
    · exact .inr ⟨0, by omega, h2, by omega⟩
    · exact .inl h2
    · exact .inr ⟨1, by omega, h2, by omega⟩
    · exact .inl h2
    · exact .inr ⟨2, by omega, h2, by omega⟩
    · exact .inl h2
    · omega
  · rintro (h | ⟨k, hk, h, hle⟩)
    · -- 元の bit は、それを含む byte の項に現れる
      have hbyte : j < 8 ∨ 8 ≤ j ∧ j < 16 ∨ 16 ≤ j ∧ j < 24 ∨ 24 ≤ j := by omega
      simp only [h]
      grind
    · grind

theorem intOfChars_valueBytes (v : BitVec 32) : intOfChars (valueBytes v) = v ↔ SignSafe v := by
  constructor
  · intro h k hk hbit j hj hle
    have hv := getLsbD_intOfChars v hj
    rw [h] at hv
    exact hv.mpr (.inr ⟨k, hk, hbit, hle⟩)
  · intro h
    refine BitVec.eq_of_getLsbD_eq fun j hj => ?_
    rw [Bool.eq_iff_iff, getLsbD_intOfChars v hj]
    constructor
    · rintro (hbit | ⟨k, hk, hbit, hle⟩)
      · exact hbit
      · exact h k hk hbit j hj hle
    · exact .inl

/-! ## 書き込み -/

section Write

variable {os : OsSocket} {buf : List UInt8} {w : Wire} {cl : Nat}

theorem esqMcoSocketWriteLoop_nil (n : Nat) (w : Wire) (hn : mcoSocketIoMaxRetry ≤ cl + n) :
    ∃ r calls, esqMcoSocketWriteLoop os [] cl 0 w = (r, { calls, sent := w.sent }) ∧ r ≠ 0 := by
  induction n generalizing cl w with
  | zero =>
    rw [esqMcoSocketWriteLoop, if_pos (by omega)]
    exact ⟨_, _, rfl, by decide⟩
  | succ n ih =>
    have hle := os.writeNb_le w.calls 0
    rw [esqMcoSocketWriteLoop]
    split
    · exact ⟨_, _, rfl, by decide⟩
    · simp only [List.length_nil, List.take_nil, List.append_nil]
      split
      · split
        · next hr => exact ⟨_, _, rfl, hr⟩
        · exact ih { calls := w.calls + 1, sent := w.sent } (by omega)
      · rw [if_neg (show ¬ (0 : Int) < os.writeNb w.calls 0 by exact not_lt.mpr hle)]
        split
        · exact ⟨_, _, rfl, by decide⟩
        · exact ⟨_, _, rfl, by decide⟩

theorem esqMcoSocketWrite_nil (os : OsSocket) (w : Wire) :
    ∃ r calls, esqMcoSocketWrite os [] w = (r, { calls, sent := w.sent }) ∧ r ≠ 0 :=
  esqMcoSocketWriteLoop_nil mcoSocketIoMaxRetry w (by omega)

theorem esqMcoSocketWriteLoop_take (hbuf : buf ≠ []) (hcl : cl < mcoSocketIoMaxRetry)
    (hw : os.writeNb w.calls buf.length = buf.length) :
    esqMcoSocketWriteLoop os buf cl 0 w
      = (0, { calls := w.calls + 1, sent := w.sent ++ buf }) := by
  have hlen : 0 < buf.length := List.length_pos_iff.mpr hbuf
  rw [esqMcoSocketWriteLoop, if_neg (by omega)]
  simp only [hw]
  rw [if_neg (by omega), if_neg (by omega), if_pos (by omega), if_pos (by omega),
    Int.toNat_natCast, List.take_length]
  rfl

theorem esqMcoSocketWriteLoop_again (hcl : cl < mcoSocketIoMaxRetry)
    (hw : os.writeNb w.calls buf.length = 0) (harm : ∀ n, os.setSocketFd n = 0) :
    esqMcoSocketWriteLoop os buf cl 0 w
      = esqMcoSocketWriteLoop os buf (cl + 1) 0 { calls := w.calls + 1, sent := w.sent } := by
  rw [esqMcoSocketWriteLoop, if_neg (by omega)]
  simp [hw, harm]

theorem esqMcoSocketWrite_whole (hos : os.Whole) (hbuf : buf ≠ []) (w : Wire) :
    ∃ calls, esqMcoSocketWrite os buf w = (0, { calls, sent := w.sent ++ buf }) := by
  have hlen : 0 < buf.length := List.length_pos_iff.mpr hbuf
  unfold esqMcoSocketWrite
  rcases hos.all_or_none w.calls _ hlen with h0 | h0
  · rw [esqMcoSocketWriteLoop_again (by decide) h0 hos.armed]
    rcases hos.all_or_none (w.calls + 1) _ hlen with h1 | h1
    · rw [esqMcoSocketWriteLoop_again (by decide) h1 hos.armed]
      have h2 : os.writeNb (w.calls + 2) buf.length = buf.length := by
        have hsoon := hos.soon w.calls _ hlen
        omega
      exact ⟨_, esqMcoSocketWriteLoop_take hbuf (by decide) h2⟩
    · exact ⟨_, esqMcoSocketWriteLoop_take hbuf (by decide) h1⟩
  · exact ⟨_, esqMcoSocketWriteLoop_take hbuf (by decide) h0⟩

end Write

/-! ## 積んだ引数 -/

namespace MonkeyArg

def bufParam (name : CStr) (bytes : List UInt8) (type : Nat) : PonyMonkeyParam :=
  { name, data := bytes, dataLength := bytes.length, nameLength := name.bytes.length + 1,
    type, value := 0 }

def toParam (types : MkcTypes) : MonkeyArg → PonyMonkeyParam
  | int name value =>
    { name, data := [], dataLength := 4, nameLength := name.bytes.length + 1,
      type := types.int, value }
  | buf name bytes => bufParam name bytes types.buf
  | str name bytes => bufParam name bytes types.id

variable {types : MkcTypes} {ctx ctx' : PonyMonkeyCtx} {arg : MonkeyArg}

theorem addBufParamAs_ok {name : CStr} {bytes : List UInt8} {type : Nat}
    (h : ponyMonkeyCtxAddBufParamAs ctx name bytes bytes.length type = .ok (esqOk, ctx')) :
    bytes.length < 2 ^ 16 ∧
      ctx' = { ctx with params := ctx.params ++ [bufParam name bytes type] } := by
  unfold ponyMonkeyCtxAddBufParamAs at h
  split at h
  · cases h
  · split at h
    · -- `ESQ_ERROR_SIZE` は `ESQ_OK` ではない
      simp [esqErrorSize, esqOk] at h
    · split at h
      · cases h
      · next hsize _ =>
        cases h
        exact ⟨by omega, rfl⟩

theorem add_ok (h : arg.add types ctx = .ok (esqOk, ctx')) :
    arg.payload.length < 2 ^ 16 ∧
      ctx' = { ctx with params := ctx.params ++ [arg.toParam types] } := by
  cases arg with
  | int name value =>
    simp only [add, ponyMonkeyCtxAddIntParam] at h
    split at h
    · cases h
    · split at h
      · cases h
      · cases h
        exact ⟨by simp [payload, valueBytes], rfl⟩
  | buf name bytes => exact addBufParamAs_ok h
  | str name bytes => exact addBufParamAs_ok h

def frame (types : MkcTypes) (arg : MonkeyArg) : List UInt8 :=
  (arg.toParam types).header ++ (arg.name.bytes ++ [0]) ++ arg.payload

@[simp] theorem toParam_nameLength : (arg.toParam types).nameLength = arg.name.bytes.length + 1 := by
  cases arg <;> rfl

@[simp] theorem toParam_dataLength : (arg.toParam types).dataLength = arg.payload.length := by
  cases arg <;> rfl

@[simp] theorem toParam_nameBytes :
    (arg.toParam types).nameBytes = arg.name.bytes ++ [0] := by
  have hname : (arg.toParam types).name = arg.name := by cases arg <;> rfl
  unfold PonyMonkeyParam.nameBytes
  rw [hname, toParam_nameLength]
  exact List.take_of_length_le (by simp)

theorem length_frame (types : MkcTypes) (arg : MonkeyArg) :
    (arg.frame types).length = 4 + arg.payload.length + (arg.name.bytes.length + 1) := by
  simp only [frame, PonyMonkeyParam.header, List.length_append, List.length_cons, List.length_nil]
  omega

end MonkeyArg

section Send

variable {types : MkcTypes} {os : OsSocket}

theorem addParams_some {ctx ctx' : PonyMonkeyCtx} {args : List MonkeyArg}
    (h : addParams types ctx args = some ctx') :
    ctx'.params = ctx.params ++ args.map (MonkeyArg.toParam types) ∧
      ∀ arg ∈ args, arg.payload.length < 2 ^ 16 := by
  induction args generalizing ctx with
  | nil =>
    cases h
    simp
  | cons arg args ih =>
    rw [addParams] at h
    split at h
    · next r ctx1 hadd =>
      split at h
      · next hr =>
        rw [hr] at hadd
        obtain ⟨hlen, rfl⟩ := MonkeyArg.add_ok hadd
        obtain ⟨hparams, hall⟩ := ih h
        refine ⟨?_, List.forall_mem_cons.mpr ⟨hlen, hall⟩⟩
        rw [hparams, List.map_cons, List.append_assoc]
        rfl
      · cases h
    · cases h

/-- 空の buffer で打ち切られるまでに書く byte。 -/
def emitted (types : MkcTypes) : List MonkeyArg → List UInt8
  | [] => []
  | arg :: args => arg.frame types ++ if arg.payload = [] then [] else emitted types args

theorem sendValue_toParam (arg : MonkeyArg) (w : Wire) :
    sendValue types os (arg.toParam types) w = .ok (esqMcoSocketWrite os arg.payload w) := by
  have hdata (name : CStr) (bytes : List UInt8) (type : Nat) :
      (MonkeyArg.bufParam name bytes type).dataBytes = bytes := List.take_length
  unfold sendValue
  cases arg with
  | int name value => exact if_pos rfl
  | buf name bytes =>
    simp only [MonkeyArg.toParam, MonkeyArg.payload, hdata]
    exact (if_neg types.int_ne_buf).trans (if_pos rfl)
  | str name bytes =>
    simp only [MonkeyArg.toParam, MonkeyArg.payload, hdata]
    exact (if_neg types.int_ne_id).trans ((if_neg types.buf_ne_id).trans (if_pos rfl))

theorem ponyMonkeySendData_emitted (types : MkcTypes) (hos : os.Whole) (args : List MonkeyArg) (w : Wire) :
    ∃ r calls, ponyMonkeySendData types os (args.map (MonkeyArg.toParam types)) w
      = .ok (r, { calls, sent := w.sent ++ emitted types args }) := by
  induction args generalizing w with
  | nil => exact ⟨esqOk, w.calls, by simp [ponyMonkeySendData, emitted]⟩
  | cons arg args ih =>
    have hheader : (arg.toParam types).header ≠ [] := List.cons_ne_nil _ _
    have hname : (arg.toParam types).nameBytes ≠ [] := by simp
    obtain ⟨c1, h1⟩ := esqMcoSocketWrite_whole hos hheader w
    obtain ⟨c2, h2⟩ := esqMcoSocketWrite_whole hos hname ⟨c1, w.sent ++ (arg.toParam types).header⟩
    rw [List.map_cons, ponyMonkeySendData, h1]
    simp only [ne_eq, not_true, if_false, h2, sendValue_toParam, ok_bind]
    rw [emitted, MonkeyArg.frame, ← MonkeyArg.toParam_nameBytes, ← List.append_assoc,
      ← List.append_assoc, ← List.append_assoc]
    by_cases hpay : arg.payload = []
    · obtain ⟨r, c3, h3, hr⟩ := esqMcoSocketWrite_nil os
        ⟨c2, w.sent ++ (arg.toParam types).header ++ (arg.toParam types).nameBytes⟩
      rw [hpay, h3]
      exact ⟨r, c3, by simp [hr]⟩
    · obtain ⟨c3, h3⟩ := esqMcoSocketWrite_whole hos hpay
        ⟨c2, w.sent ++ (arg.toParam types).header ++ (arg.toParam types).nameBytes⟩
      rw [h3, if_neg hpay]
      simp only [not_true, if_false]
      exact ih _

end Send

/-! ## 読み戻し -/

section Decode

variable {types : MkcTypes} {name : List UInt8} {arg : MonkeyArg} {args : List MonkeyArg}

theorem esqMkcGetSessionParamByName_long (hname : 255 ≤ name.length) (p : List UInt8) :
    esqMkcGetSessionParamByName types name p = .void := by
  induction p using esqMkcGetSessionParamByName.induct name with
  | case1 => simp [esqMkcGetSessionParamByName]
  | case2 h0 h1 h2 h3 rest hrest namelen datalen hlen =>
    rw [esqMkcGetSessionParamByName, if_neg hrest]
    exact if_pos hlen
  | case3 h0 h1 h2 h3 rest hrest namelen datalen hlen hne ih =>
    rw [esqMkcGetSessionParamByName, if_neg hrest]
    exact (if_neg hlen).trans ((if_pos hne).trans ih)
  | case4 h0 h1 h2 h3 rest hrest namelen datalen hlen heq =>
    -- 名前が一致するなら、その長さは 1 byte に収まる
    have hlt : namelen < 256 := h1.toNat_lt
    omega
  | case5 p h =>
    unfold esqMkcGetSessionParamByName
    split
    · next h0 h1 h2 h3 rest => exact absurd rfl (h h0 h1 h2 h3 rest)
    · rfl

/-- 値を受け手が読み戻したもの。整数だけが変わりうる。 -/
def MonkeyArg.received : MonkeyArg → MkcParam
  | int _ value => .int (intOfChars (valueBytes value))
  | buf _ bytes => .buf bytes
  | str _ bytes => .id bytes

theorem MonkeyArg.toParam_type_lt (types : MkcTypes) (arg : MonkeyArg) :
    (arg.toParam types).type < 4 := by
  cases arg with
  | int => exact types.int_lt
  | buf => exact types.buf_lt
  | str => exact types.id_lt

theorem mkcParamValue_payload (arg : MonkeyArg) (rest : List UInt8) :
    mkcParamValue types (arg.toParam types).type arg.payload.length (arg.payload ++ rest)
      = arg.received := by
  unfold mkcParamValue
  cases arg with
  | int name value => exact if_pos rfl
  | buf name bytes =>
    rw [List.take_left' rfl]
    exact (if_neg types.int_ne_buf).trans (if_pos rfl)
  | str name bytes =>
    rw [List.take_left' rfl]
    exact (if_neg types.int_ne_id).trans ((if_neg types.buf_ne_id).trans (if_pos rfl))

theorem headerType (t : Nat) (h : t < 4) :
    ((UInt8.ofNat ((t <<< 2) &&& 0xc)).toNat &&& 0xc) >>> 2 = t := by
  revert t
  decide

theorem headerDataLength {n : Nat} (h : n < 2 ^ 16) :
    ((UInt8.ofNat ((n >>> 8) &&& 0xff)).toNat <<< 8) + (UInt8.ofNat (n &&& 0xff)).toNat = n := by
  have hmask (m : Nat) : m &&& 0xff = m % 2 ^ 8 := Nat.and_two_pow_sub_one_eq_mod m 8
  rw [hmask, hmask, Nat.shiftLeft_eq, Nat.shiftRight_eq_div_pow, UInt8.toNat_ofNat',
    UInt8.toNat_ofNat']
  omega

theorem esqMkcGetSessionParamByName_frame (hname : arg.name.bytes.length ≤ 254)
    (hpay : arg.payload.length < 2 ^ 16) (rest : List UInt8) :
    esqMkcGetSessionParamByName types name (arg.frame types ++ rest)
      = if arg.name.bytes = name then arg.received
        else esqMkcGetSessionParamByName types name rest := by
  have hnl : (UInt8.ofNat (arg.toParam types).nameLength).toNat = arg.name.bytes.length + 1 := by
    rw [MonkeyArg.toParam_nameLength, UInt8.toNat_ofNat']
    omega
  have hlen : (arg.name.bytes ++ [0]).length = arg.name.bytes.length + 1 := List.length_append
  have hne : arg.name.bytes ++ [0] ++ (arg.payload ++ rest) ≠ [] := by simp
  have hfit : ¬ (arg.name.bytes ++ [0] ++ (arg.payload ++ rest)).length
      < arg.name.bytes.length + 1 + arg.payload.length := by
    rw [List.length_append, hlen, List.length_append]
    omega
  have hskip : (arg.name.bytes ++ [0] ++ (arg.payload ++ rest)).drop
      (arg.name.bytes.length + 1 + arg.payload.length) = rest := by
    rw [← List.append_assoc]
    exact List.drop_left' (by rw [List.length_append, hlen])
  have hvalue : (arg.name.bytes ++ [0] ++ (arg.payload ++ rest)).drop
      (arg.name.bytes.length + 1) = arg.payload ++ rest := List.drop_left' hlen
  rw [MonkeyArg.frame, PonyMonkeyParam.header, MonkeyArg.toParam_dataLength, List.append_assoc,
    List.append_assoc]
  show esqMkcGetSessionParamByName types name (_ :: _ :: _ :: _ ::
    (arg.name.bytes ++ [0] ++ (arg.payload ++ rest))) = _
  rw [esqMkcGetSessionParamByName, hnl, headerDataLength hpay,
    headerType _ (arg.toParam_type_lt types), if_neg hne]
  simp only [hskip, hvalue, mkcParamValue_payload]
  rw [if_neg hfit]
  have htake (h : name.length = arg.name.bytes.length) :
      (arg.name.bytes ++ [0] ++ (arg.payload ++ rest)).take name.length = arg.name.bytes := by
    rw [List.append_assoc]
    exact List.take_left' h.symm
  by_cases hmatch : arg.name.bytes = name
  · have hl : name.length = arg.name.bytes.length := by rw [hmatch]
    rw [if_pos hmatch, if_neg]
    rintro (h | h)
    · omega
    · rw [htake hl, hmatch, memcmp_self] at h
      exact h rfl
  · rw [if_neg hmatch, if_pos]
    by_contra hcon
    rw [not_or, not_not, not_not] at hcon
    obtain ⟨hl, hcmp⟩ := hcon
    have hl' : name.length = arg.name.bytes.length := by omega
    rw [htake hl'] at hcmp
    exact hmatch (memcmp_eq_zero hl' hcmp).symm

theorem esqMkcGetSessionParamByName_frames
    (hargs : ∀ arg ∈ args, arg.name.bytes.length ≤ 254 ∧ arg.payload.length < 2 ^ 16) :
    esqMkcGetSessionParamByName types name (args.flatMap (MonkeyArg.frame types))
      = ((args.find? fun arg => arg.name.bytes = name).map MonkeyArg.received).getD .void := by
  induction args with
  | nil => simp [esqMkcGetSessionParamByName]
  | cons arg args ih =>
    obtain ⟨⟨hname, hpay⟩, hrest⟩ := List.forall_mem_cons.mp hargs
    rw [List.flatMap_cons, esqMkcGetSessionParamByName_frame hname hpay, ih hrest, List.find?_cons]
    by_cases hmatch : arg.name.bytes = name
    · simp [hmatch]
    · simp [hmatch]

theorem firstNamed_eq :
    firstNamed args name
      = ((args.find? fun arg => arg.name.bytes = name).map MonkeyArg.param).getD .void := by
  induction args with
  | nil => rfl
  | cons arg args ih =>
    rw [firstNamed, ih, List.find?_cons]
    by_cases hmatch : arg.name.bytes = name
    · simp [hmatch]
    · simp [hmatch]

theorem MonkeyArg.received_eq_param (arg : MonkeyArg) :
    arg.received = arg.param ↔ ∀ v, arg.param = .int v → SignSafe v := by
  cases arg with
  | int name value =>
    simp only [received, param, MkcParam.int.injEq, intOfChars_valueBytes, forall_eq']
  | buf name bytes => simp [received, param]
  | str name bytes => simp [received, param]

theorem esqMkcGetSessionParamByName_frames_iff
    (hargs : ∀ arg ∈ args, arg.name.bytes.length ≤ 254 ∧ arg.payload.length < 2 ^ 16) :
    esqMkcGetSessionParamByName types name (args.flatMap (MonkeyArg.frame types))
        = firstNamed args name
      ↔ ∀ v, firstNamed args name = .int v → SignSafe v := by
  rw [esqMkcGetSessionParamByName_frames hargs, firstNamed_eq]
  cases args.find? fun arg => arg.name.bytes = name with
  | none => simp
  | some arg => exact arg.received_eq_param

theorem firstNamed_ne_void (h : arg ∈ args) : firstNamed args arg.name.bytes ≠ .void := by
  induction args with
  | nil => cases h
  | cons first args ih =>
    rw [firstNamed]
    split
    · cases first <;> simp [MonkeyArg.param]
    · next hne =>
      rcases List.mem_cons.mp h with rfl | h
      · exact absurd rfl hne
      · exact ih h

theorem ponyMonkeyGetDataLength_toParam (args : List MonkeyArg) :
    ponyMonkeyGetDataLength (args.map (MonkeyArg.toParam types))
      = (args.flatMap (MonkeyArg.frame types)).length := by
  have hfold (s : Nat) : (args.map (MonkeyArg.toParam types)).foldl
      (fun s param => s + 4 + param.dataLength + param.nameLength) s
        = s + (args.flatMap (MonkeyArg.frame types)).length := by
    induction args generalizing s with
    | nil => rfl
    | cons arg args ih =>
      rw [List.map_cons, List.foldl_cons, ih, List.flatMap_cons, List.length_append,
        MonkeyArg.length_frame, MonkeyArg.toParam_dataLength, MonkeyArg.toParam_nameLength]
      omega
  exact (hfold 0).trans (Nat.zero_add _)

theorem emitted_eq_frames (h : ∀ arg ∈ args.dropLast, arg.payload ≠ []) :
    emitted types args = args.flatMap (MonkeyArg.frame types) := by
  induction args with
  | nil => rfl
  | cons arg args ih =>
    rw [emitted, List.flatMap_cons]
    cases args with
    | nil => simp [emitted]
    | cons next args =>
      rw [List.dropLast_cons_cons, List.forall_mem_cons] at h
      rw [if_neg h.1, ih h.2]

theorem payload_ne_nil_of_length
    (h : (emitted types args).length = (args.flatMap (MonkeyArg.frame types)).length) :
    ∀ arg ∈ args.dropLast, arg.payload ≠ [] := by
  induction args with
  | nil => simp
  | cons arg args ih =>
    cases args with
    | nil => simp
    | cons next args =>
      rw [emitted, List.flatMap_cons, List.length_append, List.length_append] at h
      rw [List.dropLast_cons_cons, List.forall_mem_cons]
      split at h
      · have hnext := MonkeyArg.length_frame types next
        rw [List.flatMap_cons, List.length_append, hnext] at h
        simp only [List.length_nil] at h
        omega
      · next hpay => exact ⟨hpay, ih (Nat.add_left_cancel h)⟩

end Decode

/-! ## 往復 -/

/--
**monkey の引数が読み戻せるための条件。**

受け付けられた引数の列を送ったとき、どの名前でも最初の引数が元の種類と値で読み戻せて、書いた長さが
`pony_monkey_get_data_length` に等しいのは、次の三つが揃うとき、そのときに限る。

* どの名前も 254 byte 以下である。
* 最後以外の値は空でない。
* 名前ごとの最初の引数が整数なら、その値は符号の広がりで変わらない。
-/
theorem monkey_params_round_trip (types : MkcTypes) (os : OsSocket) (hos : os.Whole)
    (valuesMax : Int) (args : List MonkeyArg) (ctx : PonyMonkeyCtx)
    (h : acceptedParams types valuesMax args = some ctx) :
    ParamsRoundTrip types os args ctx ↔
      (∀ arg ∈ args, arg.name.bytes.length ≤ 254)
        ∧ (∀ arg ∈ args.dropLast, arg.payload ≠ [])
        ∧ ∀ name v, firstNamed args name = .int v → SignSafe v := by
  obtain ⟨ctx0, hnew, hadd⟩ := Option.bind_eq_some_iff.mp h
  obtain ⟨hparams, hsize⟩ := addParams_some hadd
  have hempty : ctx0.params = [] := by
    unfold ponyMonkeyCtxNew at hnew
    split at hnew
    · cases hnew
    · cases hnew
      rfl
  rw [hempty, List.nil_append] at hparams
  obtain ⟨r, calls, hsend⟩ := ponyMonkeySendData_emitted types hos args ⟨0, []⟩
  rw [List.nil_append] at hsend
  unfold ParamsRoundTrip
  rw [hparams, hsend, ponyMonkeyGetDataLength_toParam]
  constructor
  · rintro ⟨r', w, heq, hget, hlen⟩
    cases heq
    have hpay := payload_ne_nil_of_length hlen
    have hname : ∀ arg ∈ args, arg.name.bytes.length ≤ 254 := by
      intro arg harg
      by_contra hlong
      have hvoid := hget arg.name.bytes
      rw [esqMkcGetSessionParamByName_long (by omega)] at hvoid
      exact firstNamed_ne_void harg hvoid.symm
    refine ⟨hname, hpay, ?_⟩
    intro name
    have hall := fun arg harg => And.intro (hname arg harg) (hsize arg harg)
    rw [← esqMkcGetSessionParamByName_frames_iff hall, ← emitted_eq_frames hpay]
    exact hget name
  · rintro ⟨hname, hpay, hint⟩
    have hall := fun arg harg => And.intro (hname arg harg) (hsize arg harg)
    refine ⟨r, _, rfl, ?_, ?_⟩
    · intro name
      show esqMkcGetSessionParamByName types name (emitted types args) = _
      rw [emitted_eq_frames hpay, esqMkcGetSessionParamByName_frames_iff hall]
      exact hint name
    · rw [emitted_eq_frames hpay]

def MkcTypes.sample : MkcTypes where
  int := 0
  buf := 1
  id := 2
  int_lt := by decide
  buf_lt := by decide
  id_lt := by decide
  int_ne_buf := by decide
  int_ne_id := by decide
  buf_ne_id := by decide

def OsSocket.prompt : OsSocket where
  writeNb _ len := len
  setSocketFd _ := 0
  writeNb_le _ _ := Int.le_refl _

theorem OsSocket.whole_prompt : OsSocket.prompt.Whole where
  all_or_none _ _ _ := .inr rfl
  soon _ _ _ := .inl rfl
  armed _ := rfl

/-- `modules/foo_server/monkey.c` の `foo_pony_query_monkey_bsc_case_4` が積む引数。 -/
def fooMonkeyArgs : List MonkeyArg :=
  [.int ⟨[105, 110, 116, 48], by decide⟩ 0x12345678#32,
    .int ⟨[105, 110, 116, 49], by decide⟩ 0x87654321#32]

theorem foo_monkey_params_round_trip :
    ∃ ctx, acceptedParams .sample 2 fooMonkeyArgs = some ctx
      ∧ ParamsRoundTrip .sample .prompt fooMonkeyArgs ctx := by
  refine ⟨_, rfl, (monkey_params_round_trip .sample .prompt OsSocket.whole_prompt 2 fooMonkeyArgs
    _ rfl).mpr ⟨by decide, by decide, ?_⟩⟩
  intro name v h
  simp only [fooMonkeyArgs, firstNamed] at h
  split at h
  · cases h
    decide
  · split at h
    · cases h
      decide
    · cases h

def monkeyArg128 : MonkeyArg := .int (.ofBytes [97]) 128#32

/-- 整数 128 は -128 に読み戻される。 -/
theorem monkey_int_128_changed :
    ∃ ctx, acceptedParams .sample 1 [monkeyArg128] = some ctx
      ∧ ¬ ParamsRoundTrip .sample .prompt [monkeyArg128] ctx := by
  refine ⟨_, rfl, ?_⟩
  rintro ⟨r, w, hsend, hget, -⟩
  obtain ⟨r', calls, hemit⟩ :=
    ponyMonkeySendData_emitted .sample OsSocket.whole_prompt [monkeyArg128] ⟨0, []⟩
  have hw : w.sent = [monkeyArg128].flatMap (MonkeyArg.frame .sample) := by
    have heq := Except.ok.inj (hsend.symm.trans hemit)
    rw [(Prod.mk.inj heq).2]
    exact emitted_eq_frames (by decide)
  have hread := hget [97]
  rw [hw, esqMkcGetSessionParamByName_frames_iff (by decide)] at hread
  exact absurd (hread 128#32 rfl) (by decide)

end Esq
