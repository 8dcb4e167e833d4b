import Esq.Infra.Infix
import Mathlib.Data.UInt

/-!
# POST で送られた form を読む

`libs/post-data-parser/parser.c`。

buffer は `len` byte の列で、その後ろの memory を `beyond` とする。読んだ要素は callback に渡す。次の
buffer に引き継ぐのは、最後の要素の種類と、区切りの行だけである。
-/

namespace Esq

open Infra

inductive PostEt where
  | void
  | error
  | emptyLine
  | boundary
  | contentFormData
  | finish
  | name
  | filename
  | value
  | contentType
  deriving DecidableEq

def pdpBoundaryMax : Nat := 256

/-- `post_data_ctx_t`。`boundary` は、その初めの `boundary_len` byte である。 -/
structure PostDataCtx where
  lastItemType : PostEt
  boundary : List UInt8

def PostDataCtx.init : PostDataCtx where
  lastItemType := .void
  boundary := []

def crlf : List UInt8 := [13, 10]

def contentDfd : List UInt8 :=
  [13, 10, 67, 111, 110, 116, 101, 110, 116, 45, 68, 105, 115, 112, 111, 115, 105, 116, 105, 111, 110,
    58, 32, 102, 111, 114, 109, 45, 100, 97, 116, 97, 59]

def nameS : List UInt8 := [32, 110, 97, 109, 101, 61, 34]

def fnameS : List UInt8 := [59, 32, 102, 105, 108, 101, 110, 97, 109, 101, 61, 34]

def emptyLine : List UInt8 := [13, 10, 13, 10]

def contentTypePrefix : List UInt8 :=
  [13, 10, 67, 111, 110, 116, 101, 110, 116, 45, 84, 121, 112, 101, 58, 32]

def finishMark : List UInt8 := [45, 45, 13, 10]

def memmem (haystack needle : List UInt8) : Option Nat := findInfix needle haystack

/-- `pdp_locate_boundary`。`l >= len` は符号なしの比較で、負の `l` も -1 になる。 -/
def pdpLocateBoundary (buf : List UInt8) : Int :=
  let max := if pdpBoundaryMax < buf.length then pdpBoundaryMax else buf.length
  match memmem (buf.take max) crlf with
  | some r =>
    let l : Int := r - 1
    if (buf.length : Int) ≤ l ∨ l ≤ 0 then -1 else l
  | none => -1

inductive PdpEvent where
  /-- callback を呼んだ。`ptr` が `none` なら NULL である -/
  | call (etype : PostEt) (ptr : Option Nat) (len : Int) (bytes : List UInt8)
  /-- `memmem` か `memcmp` で見た範囲 -/
  | read (offset len : Nat)

abbrev PostDataParserAppCb (σ : Type*) := σ → PostEt → List UInt8 → Int × σ

structure PdpState (σ : Type*) where
  lastItemType : PostEt
  i : Nat
  app : σ
  events : List PdpEvent

/-- `switch` の抜け方。`fail` は `return -1`、`finish` は `return 0` である。 -/
inductive PdpNext where
  | next
  | ok
  | exx
  | fail
  | finish
  deriving DecidableEq

section

variable {σ : Type*} (beyond : Nat → UInt8) (buf : List UInt8) (cb : PostDataParserAppCb σ)

def byteAt (k : Nat) : UInt8 := if k < buf.length then buf.getD k 0 else beyond (k - buf.length)

def readBytes (offset n : Nat) : List UInt8 := (List.range n).map fun k => byteAt beyond buf (offset + k)

def PdpState.read (s : PdpState σ) (offset n : Nat) : PdpState σ :=
  { s with events := s.events ++ [.read offset n] }

def PdpState.call (s : PdpState σ) (etype : PostEt) (ptr : Nat) (len : Int) : Int × PdpState σ :=
  let bytes := readBytes beyond buf ptr len.toNat
  let r := cb s.app etype bytes
  (r.1, { s with
    app := r.2
    events := s.events ++ [.call etype (some ptr) len bytes] })

/-- `CONSUME_ITEM2`。`value` から `vlen` byte を渡し、`len` byte 進む。 -/
def consumeItem2 (s : PdpState σ) (etype : PostEt) (len : Int) (value : Nat) (vlen : Int) :
    PdpNext × PdpState σ :=
  let (r, s) := s.call beyond buf cb etype value vlen
  if r ≠ 0 then (.fail, s)
  else (.next, { s with
    lastItemType := etype
    i := (s.i + len).toNat })

def consumeItem (s : PdpState σ) (etype : PostEt) (len : Int) : PdpNext × PdpState σ :=
  consumeItem2 beyond buf cb s etype len s.i len

/-- `CONSUME_ITEM` の中で `return` しなければ、続ける。 -/
def andThen (r : PdpNext × PdpState σ) (f : PdpState σ → PdpNext × PdpState σ) : PdpNext × PdpState σ :=
  match r with
  | (.next, s) => f s
  | r => r

def getNameEnd (start : Nat) : Int :=
  match (buf.drop start).findIdx? (· == 34) with
  | some k => start + k
  | none => -1

/-- `(len - i >= least) && !memcmp(text, buf + i, …)` -/
def looksAt (s : PdpState σ) (least : Nat) (text : List UInt8) : Bool × PdpState σ :=
  if least ≤ buf.length - s.i then
    (decide (readBytes beyond buf s.i text.length = text), s.read s.i text.length)
  else (false, s)

def pdpTurn (boundary : List UInt8) (s : PdpState σ) : PdpNext × PdpState σ :=
  let len := buf.length
  match s.lastItemType with
  | .void => (.exx, s)
  | .error => (.fail, s)
  | .emptyLine =>
    let itemEnd := memmem (readBytes beyond buf s.i (len - s.i)) boundary
    let s := s.read s.i (len - s.i)
    match itemEnd with
    | some k =>
      andThen (consumeItem beyond buf cb s .value k) fun s =>
        consumeItem beyond buf cb s .boundary (boundary.length + 1)
    | none => andThen (consumeItem beyond buf cb s .value (len - s.i)) fun s => (.ok, s)
  | .boundary =>
    let (found, s) := looksAt beyond buf s contentDfd.length contentDfd
    if found then consumeItem beyond buf cb s .contentFormData contentDfd.length
    else if len - s.i = 4 ∧ readBytes beyond buf s.i 4 = finishMark then
      (.finish, (s.call beyond buf cb .finish s.i 4).2)
    else (.exx, s)
  | .contentFormData =>
    let (found, s) := looksAt beyond buf s nameS.length nameS
    if found then
      let nameEnd := getNameEnd buf (s.i + nameS.length)
      if nameEnd ≤ 0 then (.exx, s)
      else consumeItem2 beyond buf cb s .name (nameEnd - s.i + 1) (s.i + nameS.length)
        (nameEnd - s.i - nameS.length)
    else (.exx, s)
  | .finish => (.fail, s)
  | .name =>
    let (found, s) := looksAt beyond buf s fnameS.length fnameS
    if found then
      let nameEnd := getNameEnd buf (s.i + fnameS.length)
      if nameEnd ≤ 0 then (.exx, s)
      else consumeItem2 beyond buf cb s .filename (nameEnd - s.i + 1) (s.i + fnameS.length)
        (nameEnd - s.i - fnameS.length)
    else
      let (found, s) := looksAt beyond buf s emptyLine.length emptyLine
      if found then consumeItem beyond buf cb s .emptyLine emptyLine.length
      else (.exx, s)
  | .filename =>
    -- `sizeof` は終わりの NUL も数える
    let (found, s) := looksAt beyond buf s (contentTypePrefix.length + 2) contentTypePrefix
    if found then
      let start := s.i + (contentTypePrefix.length + 1)
      let typeEnd := memmem (readBytes beyond buf start (len - s.i)) crlf
      let s := s.read start (len - s.i)
      match typeEnd with
      | none => (.exx, s)
      | some k =>
        let itemLen : Int := start + k - s.i
        consumeItem2 beyond buf cb s .contentType itemLen (s.i + contentTypePrefix.length)
          (itemLen - contentTypePrefix.length)
    else (.exx, s)
  | .value =>
    let itemEnd := memmem (readBytes beyond buf s.i (len - s.i)) boundary
    let s := s.read s.i (len - s.i)
    match itemEnd with
    | some 0 => consumeItem beyond buf cb s .boundary (boundary.length + 1)
    | some k =>
      andThen (consumeItem beyond buf cb s .value k) fun s =>
        consumeItem beyond buf cb s .boundary (boundary.length + 1)
    | none => andThen (consumeItem beyond buf cb s .value (len - s.i)) fun s => (.ok, s)
  | .contentType =>
    let (found, s) := looksAt beyond buf s emptyLine.length emptyLine
    if found then consumeItem beyond buf cb s .emptyLine emptyLine.length
    else (.exx, s)

/-- `while` の loop。一回りごとに進むので、回るのは残りの byte の数までである。 -/
def pdpLoop (boundary : List UInt8) : Nat → PdpState σ → Option (PdpNext × PdpState σ)
  | 0, s => if s.i < buf.length then none else some (.ok, s)
  | n + 1, s =>
    if s.i < buf.length then
      match pdpTurn beyond buf cb boundary s with
      | (.next, s) => pdpLoop boundary n s
      | r => some r
    else some (.ok, s)

structure PdpResult (σ : Type*) where
  ret : Int
  ctx : PostDataCtx
  app : σ
  events : List PdpEvent

def pdpReturn (ctx : PostDataCtx) : PdpNext × PdpState σ → PdpResult σ
  | (.next, s) | (.ok, s) => ⟨0, { ctx with lastItemType := s.lastItemType }, s.app, s.events⟩
  | (.finish, s) => ⟨0, { ctx with lastItemType := .finish }, s.app, s.events⟩
  | (.fail, s) => ⟨-1, ctx, s.app, s.events⟩
  | (.exx, s) =>
    ⟨-1, { ctx with lastItemType := .error }, (cb s.app .error []).2, s.events ++ [.call .error none 0 []]⟩

def postDataParser (ctx : PostDataCtx) (app : σ) : Option (PdpResult σ) :=
  if ctx.lastItemType = .void then
    let r := pdpLocateBoundary buf
    let s : PdpState σ := {
      lastItemType := .void
      i := 0
      app := app
      events := [.read 0 (min pdpBoundaryMax buf.length)] }
    if r ≤ 2 ∨ pdpBoundaryMax ≤ r + 2 then some ⟨-1, ctx, app, s.events⟩
    else
      let ctx := { ctx with boundary := crlf ++ readBytes beyond buf 0 r.toNat }
      match consumeItem beyond buf cb s .boundary (r + 1) with
      | (.next, s) => (pdpLoop beyond buf cb ctx.boundary buf.length s).map (pdpReturn cb ctx)
      | t => some (pdpReturn cb ctx t)
  else
    let s : PdpState σ := {
      lastItemType := ctx.lastItemType
      i := 0
      app := app
      events := [] }
    (pdpLoop beyond buf cb ctx.boundary buf.length s).map (pdpReturn cb ctx)

end

end Esq
