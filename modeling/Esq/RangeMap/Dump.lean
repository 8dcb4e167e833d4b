import Esq.Bee.Open
import Esq.Bee.Session

/-!
# range map を文字にする

`range_map_dump_node`・`range_map_dump_to_buffer`・`range_map_get_main_address` と、`bee/bucket.c` の
`bee_bucket_get_db_ptr_state`。

書く先は一つの buffer で、C の関数に渡る pointer は buffer の先頭からの位置（`start`）で表す。
`offset` は `start` から数える。

`snprintf` は入りきらない文字を落とし、書くはずだった長さを返す。
-/

namespace Esq

open Infra

/-! ## 書式 -/

def decimalInt : Int → List UInt8
  | .ofNat n => decimal n
  | .negSucc n => 45 :: decimal (n + 1)

def hexDigit (n : Nat) : UInt8 := UInt8.ofNat (if n < 10 then 48 + n else 87 + n)

def hexByte (b : UInt8) : List UInt8 := [hexDigit (b.toNat / 16), hexDigit (b.toNat % 16)]

/-! ## 一つの node -/

/-- 書き進める途中。`error` は、抜けるときの戻り値と buffer である。 -/
abbrev Dumping := Except (Int × List UInt8) (Nat × List UInt8)

/-- 一つ書いて、入りきらなければ `r` を返して抜ける。 -/
def dumpText (start buflen : Nat) (w : Nat × List UInt8) (text : List UInt8) : Dumping :=
  let (r, buf) := snprintf w.2 (start + w.1) (buflen - w.1) text
  if truncated r (buflen - w.1) then .error (r, buf) else .ok (w.1 + r.toNat, buf)

def addressText (ip : Nat) (port : Int) : List UInt8 :=
  decimal (ip / 2 ^ 24 % 2 ^ 8) ++ [46] ++ decimal (ip / 2 ^ 16 % 2 ^ 8) ++ [46]
    ++ decimal (ip / 2 ^ 8 % 2 ^ 8) ++ [46] ++ decimal (ip % 2 ^ 8) ++ [58] ++ decimalInt port
    ++ [58]

def dumpAddressHash (start buflen : Nat) (buf : List UInt8) (p : RangeNode) : Dumping := do
  let w ← dumpText start buflen (0, buf) (addressText p.ip p.port)
  let (offset, buf) ← p.hash.foldlM (fun w b => dumpText start buflen w (hexByte b)) w
  if buflen - offset > 3 then .ok (offset + 1, splice buf (start + offset) [120, 0])
  else .error (-1, buf)

def beeBucketGetDbPtrState (b : BeeBucket) : Except Fault (List UInt8) :=
  match b.kcdb 0, b.kcdb 1 with
  | some _, some _ => .ok (ascii "BP")
  | some _, none => .ok (ascii "B")
  | none, some _ => .ok (ascii "P")
  | none, none => .error .designError

def rangeMapDumpNodeToBuffer (st : Bee) (start buflen : Nat) (buf : List UInt8) (p : Nat) :
    Except Fault (Int × List UInt8) :=
  match dumpAddressHash start buflen buf (st.maps.node p) with
  | .error e => .ok e
  | .ok (offset, buf) =>
    match (st.maps.node p).bucket with
    | none => .ok (offset, buf)
    | some b => do
      let s ← beeBucketGetDbPtrState (st.bucket b)
      let (r, buf) := snprintf buf (start + offset) (buflen - offset) (58 :: s)
      if truncated r (buflen - offset) then .ok (-1, buf) else .ok (offset + r, buf)

/-- `range_map_dump_node`。戻り値の二つ目は、書いた長さと buffer である。 -/
def rangeMapDumpNode (st : Bee) (mapName ipStr : CStr) (port : Int) (hashString : CStr)
    (buf : List UInt8) (buflen : Nat) : Except Fault (Option String × Int × List UInt8) :=
  match translateMkcParams ipStr hashString with
  | .error errs => .ok (some errs, buflen, buf)
  | .ok params =>
    match rangeMapFindByName st.maps mapName with
    | none => .ok (some "range map not exist", buflen, buf)
    | some i =>
      match rangeMapFindNode st.maps i params.ip port params.hash with
      | none => .ok (some "range map node not exist", buflen, buf)
      | some p => do
        let (r, buf) ← rangeMapDumpNodeToBuffer st 0 buflen buf p
        if r ≤ 0 then .ok (some "node info buffer too small", buflen, buf)
        else .ok (none, r, buf)

/-! ## chain と map -/

/-- `range_map_dump_list_to_buffer` の、二つ目の node からの loop。 -/
def dumpListLoop (st : Bee) (start buflen : Nat) :
    Nat → List UInt8 → List Nat → Except Fault (Int × List UInt8)
  | offset, buf, [] => .ok (offset, buf)
  | offset, buf, p :: ps =>
    if buflen - offset > 3 then do
      let buf := splice buf (start + offset) [32]
      let offset := offset + 1
      let (r, buf) ← rangeMapDumpNodeToBuffer st (start + offset) (buflen - offset) buf p
      if truncated r (buflen - offset) then .ok (-1, buf)
      else dumpListLoop st start buflen (offset + r.toNat) buf ps
    else .ok (-1, buf)

def rangeMapDumpListToBuffer (st : Bee) (start buflen : Nat) (buf : List UInt8) (p : Nat) :
    Except Fault (Int × List UInt8) := do
  let (r, buf) ← rangeMapDumpNodeToBuffer st start buflen buf p
  if truncated r buflen then .ok (-1, buf)
  else dumpListLoop st start buflen r.toNat buf (rangeNodes st.maps (st.maps.next p))

/-- `RB_FOREACH` を長さの順に行うときの node。 -/
def rangeMapForeach (m : RangeMap) : List (Nat × Nat) :=
  (List.range hashValueLength).flatMap fun l => (m.rbByLength l).map fun p => (l, p)

/-- `range_map_dump_to_buffer` の loop。`first` は `first_list` である。 -/
def dumpMapLoop (st : Bee) (buflen : Nat) :
    Bool → Nat → List UInt8 → List (Nat × Nat) → Except Fault (Int × List UInt8)
  | _, offset, buf, [] => .ok (offset, buf)
  | first, offset, buf, (l, p) :: rest => do
    let text := (if first then [] else ascii ", ") ++ decimal l ++ ascii ": "
    let (r, buf) := snprintf buf offset (buflen - offset) text
    if truncated r (buflen - offset) then .ok (-1, buf)
    else
      let offset := offset + r.toNat
      let (r, buf) ← rangeMapDumpListToBuffer st offset (buflen - offset) buf p
      if r ≥ 0 then dumpMapLoop st buflen false (offset + r.toNat) buf rest else .ok (-1, buf)

def rangeMapDumpToBuffer (st : Bee) (name : CStr) (buf : List UInt8) (buflen : Nat) :
    Except Fault (Int × List UInt8) :=
  let buf := splice buf 0 [0]
  match rangeMapFindByName st.maps name with
  | none => .ok (snprintf buf 0 buflen (ascii "range not found\n"))
  | some i => dumpMapLoop st buflen true 0 buf (rangeMapForeach (st.maps.slot i))

/-! ## 主な番地 -/

/-- `range_map_get_main_address`。戻り値の二つ目は、`address` に書いた番地である。 -/
def rangeMapGetMainAddress (maps : RangeMaps) (mapName : CStr) (hash : HashT) :
    Int × Option SockaddrIn :=
  match rangeMapFindAndLock maps mapName hash with
  | none => (0, none)
  | some n =>
    match (rangeNodes maps (some n)).find? fun n => hasFlag (maps.node n).flags rmNodeMain with
    | some n => (0, some (maps.node n).address)
    | none => (-1, none)

end Esq
