import Mathlib.Logic.Function.Basic
import Esq.Basic
import Esq.Infra.Dll
import Esq.Infra.Run
import Esq.H2esq.Session
import Esq.Libs.Memcmp
import Esq.RangeMap.Dump

/-!
# HTTP/2 の stream

`nghttp2_wrapper/stream.c` の callback と、`nghttp2_wrapper/session.c` の `h2esq_frame_recv_cb`、
`h2esq_session_fd_cb` の後始末。

client の送る frame ごとに、nghttp2 が callback を呼ぶ。stream は `malloc` した cell で、接続の持つ
両端つきの列に入る。cell は番地の代わりに、作った順の番号で指す。

`malloc` の成否、service の探し方、service の戻り値、`h2esq_save_cookie` の戻り値は、呼ばれるごとに与える。
-/

namespace Esq

open Infra

/-! ## stream -/

inductive H2esqHeader where
  | method
  | path
  | authority
  | userAgent
  | accept
  | referer
  | acceptEncoding
  | acceptLanguage
  | cacheControl
  | host
deriving DecidableEq, Repr

/-- `h2esq_stream_t`。列のリンクは接続の側に置く。 -/
structure H2esqStream where
  /-- `id` -/
  id : Int
  /-- `header_strs`。後ろの NUL は含めない -/
  headerStrs : H2esqHeader → Option (List UInt8)
  /-- `header_lens` -/
  headerLens : H2esqHeader → Nat
  /-- `h2esq_service` -/
  service : Option Nat
  /-- `path_matched_length` -/
  pathMatchedLength : Int

def H2esqStream.new (id : Int) : H2esqStream where
  id := id
  headerStrs := fun _ => none
  headerLens := fun _ => 0
  service := none
  pathMatchedLength := 0

/-- `h2esq_stream_dup_header`。`mem` は `malloc` の成否である。 -/
def h2esqStreamDupHeader (s : H2esqStream) (idx : H2esqHeader) (value : List UInt8)
    (mem : Bool) : H2esqStream × Int :=
  match s.headerStrs idx with
  | some _ => (s, 0)
  | none =>
    if mem then
      ({ s with
          headerStrs := Function.update s.headerStrs idx (some value)
          headerLens := Function.update s.headerLens idx value.length }, 0)
    else (s, -1)

def asciiLower (c : UInt8) : UInt8 := if 65 ≤ c ∧ c ≤ 90 then c + 32 else c

def h2esqHeaderOf (name : List UInt8) : Option H2esqHeader :=
  if name = ascii ":authority" then some .authority
  else if name = ascii ":method" then some .method
  else if name = ascii ":path" then some .path
  else if name = ascii "accept" then some .accept
  else if name = ascii "accept-encoding" then some .acceptEncoding
  else if name = ascii "accept-language" then some .acceptLanguage
  else if name = ascii "cache-control" then some .cacheControl
  else if name = ascii "user-agent" then some .userAgent
  else if name.map asciiLower = ascii "host" then some .host
  else none

/-- `h2esq_stream_record_header`。`cookie` は `h2esq_save_cookie` の戻り値である。 -/
def h2esqStreamRecordHeader (s : H2esqStream) (name value : List UInt8) (mem : Bool)
    (cookie : Int) : H2esqStream × Int :=
  if name = ascii "cookie" then (s, cookie)
  else match h2esqHeaderOf name with
    | some idx => h2esqStreamDupHeader s idx value mem
    | none => (s, 0)

/-! ## 接続 -/

inductive NgStream where
  /-- まだ始まっていない -/
  | idle
  /-- header block の途中。`method` は、`:method` を渡したかどうかである -/
  | block (cat : HeadersCategory) (method : Bool)
  /-- 始めの header block が終わっている -/
  | ready
  /-- 閉じた -/
  | closed
deriving DecidableEq, Repr

inductive H2Phase where
  /-- callback が呼ばれる -/
  | running
  /-- callback が失敗を返した。後始末だけが残る -/
  | failing
  /-- 後始末が済んだ -/
  | gone
  /-- プロセスが終わった -/
  | exited (fault : Fault)
deriving DecidableEq, Repr

structure H2World where
  /-- `stream_list_head` と `stream_list_tail` -/
  ends : Infra.Ends Nat
  /-- `prev` と `next` -/
  links : Links Nat
  stream : Nat → H2esqStream
  /-- `nghttp2_session_set_stream_user_data` で渡したもの -/
  userData : Int → Option Nat
  ng : Int → NgStream
  phase : H2Phase
  /-- これまでに作った stream の数。番号は作った順である -/
  begun : Nat
  /-- `free` した stream を、順に並べたもの -/
  freed : List Nat

def H2World.init : H2World where
  ends := {}
  links := ⟨fun _ => none, fun _ => none⟩
  stream := fun _ => .new 0
  userData := fun _ => none
  ng := fun _ => .idle
  phase := .running
  begun := 0
  freed := []

/-- `nghttp2_session_get_stream_user_data`。閉じた stream では NULL である。 -/
def H2World.getUserData (w : H2World) (id : Int) : Option Nat :=
  if w.ng id = .closed then none else w.userData id

def H2World.setStream (w : H2World) (p : Nat) (s : H2esqStream) : H2World :=
  { w with stream := Function.update w.stream p s }

structure H2Frame where
  type : FrameType
  streamId : Int
  cat : HeadersCategory
  /-- `NGHTTP2_FLAG_END_STREAM` -/
  endStream : Bool
deriving DecidableEq, Repr

/-- service を探した結果と、service の callback の戻り値。 -/
structure H2Service where
  /-- `h2esq_instance_find_service` -/
  found : Option Nat
  /-- `matched_length` -/
  matchedLength : Int
  /-- `handler` か `on_parse_post_data` の戻り値 -/
  ret : Int
deriving DecidableEq, Repr

/-! ## callback -/

/-- stream を作って nghttp2 に渡し、列の先頭に入れる。 -/
def H2World.newStream (w : H2World) (id : Int) : H2World :=
  { w with
    begun := w.begun + 1
    stream := Function.update w.stream w.begun (.new id)
    userData := Function.update w.userData id (some w.begun)
    links := (joinHead w.links w.ends w.begun).1
    ends := (joinHead w.links w.ends w.begun).2 }

/-- `h2esq_stream_on_begin_headers`。`mem` は `malloc` の成否である。 -/
def h2esqStreamOnBeginHeaders (w : H2World) (frame : H2Frame) (mem : Bool) : H2World × Int :=
  if frame.type ≠ .headers then (w, 0)
  else if frame.cat ≠ .request then (w, 0)
  else if mem then (w.newStream frame.streamId, 0)
  else (w, nghttp2ErrCallbackFailure)

def h2esqStreamOnHeaderCb (w : H2World) (frame : H2Frame) (name value : List UInt8)
    (mem : Bool) (cookie : Int) : Except Fault (H2World × Int) :=
  match w.getUserData frame.streamId with
  | none => (h2esqStreamOnHeader ⟨frame.type, frame.cat, false, 0⟩).map fun r => (w, r)
  | some p =>
    let (s, record) := h2esqStreamRecordHeader (w.stream p) name value mem cookie
    (h2esqStreamOnHeader ⟨frame.type, frame.cat, true, record⟩).map fun r =>
      (w.setStream p s, r)

def H2World.findService (w : H2World) (p : Nat) (env : H2Service) : H2World × Option Nat :=
  match (w.stream p).service with
  | some service => (w, some service)
  | none =>
    (w.setStream p { w.stream p with
        service := env.found
        pathMatchedLength := env.matchedLength }, env.found)

/-- `h2esq_stream_on_request_recv`。service が無ければ `nghttp2_submit_rst_stream` する。 -/
def h2esqStreamOnRequestRecv (w : H2World) (p : Nat) (env : H2Service) : H2World × Int :=
  match (w.stream p).headerStrs .path with
  | none => (w, nghttp2ErrCallbackFailure)
  | some _ =>
    match w.findService p env with
    | (w, some _) => (w, if env.ret ≠ 0 then nghttp2ErrCallbackFailure else 0)
    | (w, none) => (w, 0)

def h2esqFrameRecvCb (w : H2World) (frame : H2Frame) (env : H2Service) : H2World × Int :=
  if frame.type = .data ∨ frame.type = .headers then
    if frame.endStream then
      match w.getUserData frame.streamId with
      | some p => h2esqStreamOnRequestRecv w p env
      | none => (w, 0)
    else (w, 0)
  else (w, 0)

/-- `memcmp(method, "POST", sizeof("POST"))`。NUL まで比べる。 -/
def isPost (method : List UInt8) : Bool :=
  memcmp ((method ++ [0]).take 5) (ascii "POST" ++ [0]) = 0

/-- `h2esq_stream_on_data_chunk_recv`。`method` が NULL なら `memcmp` で落ちる。 -/
def h2esqStreamOnDataChunkRecv (w : H2World) (id : Int) (env : H2Service) :
    Except Fault (H2World × Int) :=
  match w.getUserData id with
  | none => .ok (w, nghttp2ErrCallbackFailure)
  | some p =>
    match (w.stream p).headerStrs .method with
    | none => .error .segv
    | some method =>
      if !isPost method then .ok (w, nghttp2ErrCallbackFailure)
      else match (w.stream p).headerStrs .path with
        | none => .ok (w, nghttp2ErrCallbackFailure)
        | some _ =>
          match w.findService p env with
          | (w, some _) => .ok (w, if env.ret ≠ 0 then nghttp2ErrCallbackFailure else 0)
          | (w, none) => .ok (w, 0)

def h2esqStreamClose (w : H2World) (p : Nat) : H2World :=
  { w with
    links := (left w.links w.ends p).1
    ends := (left w.links w.ends p).2
    freed := w.freed ++ [p] }

def h2esqStreamOnClose (w : H2World) (id : Int) : H2World :=
  match w.getUserData id with
  | none => w
  | some p => h2esqStreamClose w p

/-- `h2esq_session_fd_cb` の後始末の loop。`fuel` 回で終わらなければ `none`。 -/
def h2esqCloseAll : Nat → H2World → Option H2World
  | fuel, w => match w.ends.head with
    | none => some w
    | some p => match fuel with
      | 0 => none
      | fuel + 1 => h2esqCloseAll fuel (h2esqStreamClose w p)

/-! ## 起こること -/

inductive H2Event where
  | beginHeaders (frame : H2Frame) (mem : Bool)
  | header (frame : H2Frame) (name value : List UInt8) (mem : Bool) (cookie : Int)
  | frameRecv (frame : H2Frame) (env : H2Service)
  | dataChunk (id : Int) (env : H2Service)
  | close (id : Int)
  | teardown
deriving DecidableEq, Repr

/-- callback の戻り値で、次に進むか後始末に移る。 -/
def H2World.returned (w : H2World) (ng : Int → NgStream) (r : Int) : H2World :=
  { w with ng := ng, phase := if r = 0 then .running else .failing }

def NgStream.named (name : List UInt8) : NgStream → NgStream
  | .block cat method => .block cat (method || name = ascii ":method")
  | s => s

def H2World.step (w : H2World) : H2Event → H2World
  | .beginHeaders frame mem =>
    let (w', r) := h2esqStreamOnBeginHeaders w frame mem
    -- 続きの block では `:method` を求めない
    let block := NgStream.block frame.cat (frame.cat ≠ .request)
    w'.returned (Function.update w.ng frame.streamId block) r
  | .header frame name value mem cookie =>
    match h2esqStreamOnHeaderCb w frame name value mem cookie with
    | .error fault => { w with phase := .exited fault }
    | .ok (w', r) =>
      w'.returned (Function.update w.ng frame.streamId ((w.ng frame.streamId).named name)) r
  | .frameRecv frame env =>
    let (w', r) := h2esqFrameRecvCb w frame env
    let ng := if frame.type = .headers then Function.update w.ng frame.streamId .ready else w.ng
    w'.returned ng r
  | .dataChunk id env =>
    match h2esqStreamOnDataChunkRecv w id env with
    | .error fault => { w with phase := .exited fault }
    | .ok (w', r) => w'.returned w.ng r
  | .close id =>
    let w' := h2esqStreamOnClose w id
    { w' with ng := Function.update w.ng id .closed }
  | .teardown =>
    match h2esqCloseAll w.begun w with
    | none => { w with phase := .exited .endless }
    | some w' => { w' with phase := .gone }

/--
nghttp2 が呼びうる callback である。

始めの header block は `REQUEST`、その後の block は `HEADERS` として渡る。
`:method` の無い要求は渡らない。閉じた stream の callback は無い。失敗を返した後と、
`nghttp2_session_del` の間には、何も呼ばれない。
-/
def H2World.Legal (w : H2World) : H2Event → Prop
  | .beginHeaders frame _ => w.phase = .running ∧ frame.type = .headers ∧
      (w.ng frame.streamId = .idle ∧ frame.cat = .request ∨
        w.ng frame.streamId = .ready ∧ frame.cat = .headers)
  | .header frame _ _ _ _ => w.phase = .running ∧ frame.type = .headers ∧
      ∃ method, w.ng frame.streamId = .block frame.cat method
  | .frameRecv frame _ => w.phase = .running ∧
      (frame.type = .headers → ∃ cat, w.ng frame.streamId = .block cat true) ∧
      (frame.type = .data → w.ng frame.streamId = .ready)
  | .dataChunk id _ => w.phase = .running ∧ w.ng id = .ready
  | .close id => w.phase = .running ∧ w.ng id ≠ .closed
  | .teardown => w.phase = .running ∨ w.phase = .failing

end Esq
