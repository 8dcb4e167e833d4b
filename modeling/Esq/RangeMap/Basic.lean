import Esq.Basic
import Esq.Infra.PrefixChain
import Esq.Libs.Sscanf

/-!
# range map

`src/range-map.c`。hash の prefix から node の chain を引く表である。

node は番地（`Nat`）で表し、`node` がその中身、`live` が `malloc` されていて `free` されていないことを持つ。
`malloc` が返す番地は外から与え、使われている番地は返らない。

red-black tree は、key の順に並んだ node の列で表す。`RB_FIND` は key の等しい node を、
`RB_INSERT` は key の順を保つ位置への挿入を表す。

`all_node_list_next` と `next` を辿る loop の燃料には `mallocs`（これまでに確保した node の数）を使う。
node は `bzero` されてから list に入るので、どの列もこれより長くならない。
-/

namespace Esq

open Infra

/-! ## データ -/

def hashValueLength : Nat := 32

def rangeMapNameMax : Nat := 32

def HashT := { buf : List UInt8 // buf.length = hashValueLength }

def HashT.buf (hash : HashT) : List UInt8 := hash.val

def rmNodeMain : BitVec 32 := 1

def rmNodeDelete : BitVec 32 := 2

def rmNodeMe : BitVec 32 := 4

def hasFlag (flags flag : BitVec 32) : Bool := flag &&& flags ≠ 0

/-- `struct sockaddr_in`。`sin_family` はいつも `AF_INET` である。 -/
structure SockaddrIn where
  sinPort : Nat := 0
  sinAddr : Nat := 0
deriving DecidableEq, Repr

def htons (port : Int) : Nat :=
  (port % 2 ^ 16).toNat % 2 ^ 8 * 2 ^ 8 + (port % 2 ^ 16).toNat / 2 ^ 8

/-- `range_node_t`。`hash` は `hash_buffer` の先頭の `hash_length` byte である。 -/
structure RangeNode where
  hash : List UInt8 := []
  ip : Nat := 0
  port : Int := 0
  flags : BitVec 32 := 0
  next : Option Nat := none
  allNodeListNext : Option Nat := none
  address : SockaddrIn := {}
  bucket : Option Nat := none

def RangeNode.deleted (p : RangeNode) : Bool := hasFlag p.flags rmNodeDelete

structure RangeMap where
  name : CStr := .empty
  rbByLength : Nat → List Nat := fun _ => []
  allList : Option Nat := none
  longest : Nat := 0

structure RangeMaps where
  node : Nat → RangeNode
  live : Nat → Bool
  slot : Fin 10 → RangeMap
  mallocs : Nat

def RangeMaps.init : RangeMaps where
  node _ := {}
  live _ := false
  slot _ := {}
  mallocs := 0

/-- range map の外にある、node を足すときに見るもの。 -/
structure Env where
  inetAddr : CStr → Nat
  osIpAddressIsMe : SockaddrIn → Bool
  beeServerIsMyPort : Int → Bool
  /-- map の名前、hash の文字列、ip、port から引く -/
  esqBeeFindBucket : List UInt8 → List UInt8 → Nat → Int → Option Nat

namespace RangeMaps

def next (st : RangeMaps) (p : Nat) : Option Nat := (st.node p).next

def allNext (st : RangeMaps) (p : Nat) : Option Nat := (st.node p).allNodeListNext

def hash (st : RangeMaps) (p : Nat) : List UInt8 := (st.node p).hash

def setNode (st : RangeMaps) (p : Nat) (f : RangeNode → RangeNode) : RangeMaps :=
  { st with node := Function.update st.node p (f (st.node p)) }

def setNext (st : RangeMaps) (p : Nat) (q : Option Nat) : RangeMaps :=
  st.setNode p fun n => { n with next := q }

def setSlot (st : RangeMaps) (i : Fin 10) (f : RangeMap → RangeMap) : RangeMaps :=
  { st with slot := Function.update st.slot i (f (st.slot i)) }

/-- `for (p = m->all_list; p; p = p->all_node_list_next)` が通る node。 -/
def allNodes (st : RangeMaps) (i : Fin 10) : List Nat :=
  walk st.allNext st.mallocs (st.slot i).allList

end RangeMaps

/-! ## red-black tree -/

/-- `RANGE_NODE_RB_FIND`。`key` は `hash` の先頭の `hash_length` byte である。 -/
def rbFind (st : RangeMaps) (i : Fin 10) (key : List UInt8) : Option Nat :=
  ((st.slot i).rbByLength key.length).find? fun a => st.hash a = key

/-- `RANGE_NODE_RB_INSERT`。`range_node_compare` の順に並べる。 -/
def rbInsert (hash : Nat → List UInt8) (p : Nat) : List Nat → List Nat
  | [] => [p]
  | a :: rest => if hash a < hash p then a :: rbInsert hash p rest else p :: a :: rest

/-! ## 読み込み -/

def RangeMaps.bypassAllList (st : RangeMaps) (i : Fin 10) (pp n : Option Nat) : RangeMaps :=
  match pp with
  | some q => st.setNode q fun node => { node with allNodeListNext := n }
  | none => st.setSlot i fun m => { m with allList := n }

def RangeMaps.free (st : RangeMaps) (p : Nat) : RangeMaps :=
  { st with live := Function.update st.live p false }

def rangeMapCleanLoop (st : RangeMaps) (i : Fin 10) :
    Nat → Option Nat → Option Nat → RangeMaps
  | 0, _, _ => st
  | _ + 1, _, none => st
  | fuel + 1, pp, some p =>
    let n := st.allNext p
    if (st.node p).deleted then
      rangeMapCleanLoop ((st.bypassAllList i pp n).free p) i fuel pp n
    else rangeMapCleanLoop (st.setNext p none) i fuel (some p) n

def rangeMapClean (st : RangeMaps) (i : Fin 10) : RangeMaps :=
  let st := st.setSlot i fun m => { m with rbByLength := fun _ => [] }
  rangeMapCleanLoop st i st.mallocs none (st.slot i).allList

def rangeMapLoadNode (st : RangeMaps) (i : Fin 10) (p : Nat) : RangeMaps :=
  match rbFind st i (st.hash p) with
  | some s => st.setNext (seekLast st.next st.mallocs s) (some p)
  | none =>
    st.setSlot i fun m => { m with
      rbByLength := Function.update m.rbByLength (st.hash p).length
        (rbInsert st.hash p (m.rbByLength (st.hash p).length)) }

def rangeMapLinkShortMatch (st : RangeMaps) (i : Fin 10) (length : Int) (n : Nat) : RangeMaps :=
  if length < 0 then st
  else match search (rbFind st i) (st.hash n) length.toNat with
    | some p => st.setNext (seekLast st.next st.mallocs n) (some p)
    | none => st

def rangeMapHeads (m : RangeMap) : List (Nat × Nat) :=
  (List.range hashValueLength).reverse.flatMap fun length =>
    (m.rbByLength length).map fun n => (length, n)

def rangeMapLongest (heads : List (Nat × Nat)) : Nat :=
  heads.foldl (fun longest h => if longest = 0 then h.1 else longest) 0

def rangeMapBuildCrossDepthReference (st : RangeMaps) (i : Fin 10) : RangeMaps :=
  let heads := rangeMapHeads (st.slot i)
  (heads.foldl (fun st h => rangeMapLinkShortMatch st i (h.1 - 1 : Int) h.2) st).setSlot i
    fun m => { m with longest := rangeMapLongest heads }

def rangeMapLoad (st : RangeMaps) (i : Fin 10) : RangeMaps :=
  rangeMapBuildCrossDepthReference
    ((st.allNodes i).foldl (fun st p => rangeMapLoadNode (st.setNext p none) i p) st) i

/-! ## 名前 -/

def rangeMapFindByName (st : RangeMaps) (name : CStr) : Option (Fin 10) :=
  (List.finRange 10).find? fun i => (st.slot i).name = name

/-- `range_map_find_by_name2`。NUL を含まない `name` については名前の一致と同じである。 -/
def rangeMapFindByName2 (st : RangeMaps) (name : List UInt8) : Option (Fin 10) :=
  (List.finRange 10).find? fun i => (st.slot i).name.bytes = name

def isNameChar (c : UInt8) : Bool := (97 ≤ c ∧ c ≤ 122) ∨ (48 ≤ c ∧ c ≤ 57)

def rangeMapNameCheck2 (name : List UInt8) : Option String :=
  if name.length ≤ 0 then some "range map name invalid"
  else if name.length ≥ rangeMapNameMax then some "range map name too long"
  else if name.all isNameChar then none
  else some "only number and lower case allowed"

def rangeMapNameCheck (name : CStr) : Option String :=
  rangeMapNameCheck2 (name.bytes.take (rangeMapNameMax + 2))

def rangeMapNew (st : RangeMaps) (name : CStr) : Option String × RangeMaps :=
  match rangeMapNameCheck name with
  | some errs => (some errs, st)
  | none =>
    match rangeMapFindByName st name with
    | some _ => (some "range map already exist", st)
    | none =>
      match (List.finRange 10).find? fun i => (st.slot i).name = .empty with
      | none => (some "too many range maps", st)
      | some i => (none, st.setSlot i fun m => { m with name := name })

/-! ## node の出し入れ -/

structure MkcParams where
  ip : Nat
  hash : List UInt8
  /-- `hash_string` の、終わりの `x` までの長さ -/
  hashStrLen : Nat
deriving DecidableEq, Repr

def translateMkcParams (ipStr hashString : CStr) : Except String MkcParams :=
  let l := ipStr.strnlen 20
  if l < 7 ∨ l > 15 then .error "invalid IP address length"
  else match getIpv4Addr (ipStr.bytes.take l) with
    | none => .error "invalid IP address"
    | some (_, ip) =>
      let l := hashString.strnlen (hashValueLength + 3)
      if l < 1 ∨ l > hashValueLength + 1 then .error "invalid hash string pameter length"
      else match getHashString (hashString.bytes.take l) with
        | none => .error "invalid hash string"
        | some (_, hashStart, hashStrLen) =>
          if 0 ≠ hashStart ∨ hashStrLen + 1 ≠ l ∨ hashStrLen > hashValueLength * 2 then
            .error "invalid hash string length"
          else match hashStr2Bin ((hashString.bytes.drop hashStart).take hashStrLen) with
            | none => .error "failed to transform hash string into binary"
            | some hash => .ok { ip, hash, hashStrLen }

def rangeMapFindNode (st : RangeMaps) (i : Fin 10) (ip : Nat) (port : Int) (hash : List UInt8) :
    Option Nat :=
  (st.allNodes i).find? fun p =>
    (st.node p).ip = ip ∧ (st.node p).port = port ∧ (st.node p).hash = hash

/-- `malloc`。`oracle` は libc が選んだ番地で、使われている番地は返らない。 -/
def RangeMaps.malloc (st : RangeMaps) (oracle : Option Nat) : Option Nat :=
  oracle.filter fun p => !st.live p

def rangeMapNewNode (env : Env) (mapName ipStr hashString : CStr) (port : Int)
    (flags : BitVec 32) (params : MkcParams) : RangeNode :=
  let address : SockaddrIn := { sinPort := htons port, sinAddr := env.inetAddr ipStr }
  let node : RangeNode := { hash := params.hash, ip := params.ip, port, flags, address }
  let hashStr := hashString.bytes.take (params.hashStrLen + 1)
  if env.osIpAddressIsMe address && env.beeServerIsMyPort port then
    { node with
      flags := flags ||| rmNodeMe
      bucket := env.esqBeeFindBucket mapName.bytes hashStr 0 0 }
  else { node with bucket := env.esqBeeFindBucket mapName.bytes hashStr params.ip port }

def RangeMaps.joinAllList (st : RangeMaps) (i : Fin 10) (p : Nat) (node : RangeNode) : RangeMaps :=
  let allList := (st.slot i).allList
  { st.setSlot i fun m => { m with allList := some p } with
    node := Function.update st.node p { node with allNodeListNext := allList }
    live := Function.update st.live p true
    mallocs := st.mallocs + 1 }

def rangeMapAddNode (env : Env) (oracle : Option Nat) (st : RangeMaps) (mapName ipStr : CStr)
    (port : Int) (flags : BitVec 32) (hashString : CStr) : Option String × RangeMaps :=
  match translateMkcParams ipStr hashString with
  | .error errs => (some errs, st)
  | .ok params =>
    match rangeMapFindByName st mapName with
    | none => (some "range map not exist", st)
    | some i =>
      match rangeMapFindNode st i params.ip port params.hash with
      | some _ => (some "range map node already exist", st)
      | none =>
        match st.malloc oracle with
        | none => (some "out of memory", st)
        | some p =>
          (none, st.joinAllList i p
            (rangeMapNewNode env mapName ipStr hashString port flags params))

def RangeMaps.markDelete (st : RangeMaps) (p : Nat) : RangeMaps :=
  st.setNode p fun n => { n with flags := n.flags ||| rmNodeDelete }

def rangeMapDelNode (st : RangeMaps) (mapName ipStr : CStr) (port : Int) (hashString : CStr) :
    Option String × RangeMaps :=
  match translateMkcParams ipStr hashString with
  | .error errs => (some errs, st)
  | .ok params =>
    match rangeMapFindByName st mapName with
    | none => (some "range map not exist", st)
    | some i =>
      match rangeMapFindNode st i params.ip port params.hash with
      | none => (some "range node not exist", st)
      | some p => (none, rangeMapLoad (rangeMapClean (st.markDelete p) i) i)

def rangeMapDelAllNode (st : RangeMaps) (mapName : CStr) : Option String × RangeMaps :=
  match rangeMapFindByName st mapName with
  | none => (some "range map not exist", st)
  | some i =>
    (none, rangeMapLoad (rangeMapClean ((st.allNodes i).foldl RangeMaps.markDelete st) i) i)

def rangeMapFlush (st : RangeMaps) (name : CStr) : Option String × RangeMaps :=
  match rangeMapFindByName st name with
  | none => (some "range map not found", st)
  | some i => (none, rangeMapLoad (rangeMapClean st i) i)

/-! ## 引く -/

def rangeMapFindAndLock (st : RangeMaps) (mapName : CStr) (hash : HashT) : Option Nat :=
  match rangeMapFindByName st mapName with
  | none => none
  | some i => search (rbFind st i) hash.buf (st.slot i).longest

/-- `range_map_get_addresses` の loop。`acc` は書き込んだ番地で、`n` が NULL なら落ちる。 -/
def rangeMapGetAddressesLoop (st : RangeMaps) (maxAddresses : Int) :
    Nat → Option Nat → List SockaddrIn → Except Fault (Option (List SockaddrIn))
  | 0, none, acc => .ok (some acc)
  | 0, some _, _ => .error .endless
  | _ + 1, none, acc => .ok (some acc)
  | fuel + 1, some n, acc =>
    let n' := if (st.node n).deleted then st.next n else some n
    if (acc.length : Int) ≥ maxAddresses then .ok none
    else match n' with
      | none => .error .segv
      | some n =>
        rangeMapGetAddressesLoop st maxAddresses fuel (st.next n) (acc ++ [(st.node n).address])

/-- `range_map_get_addresses`。`-1` は `none` で表す。 -/
def rangeMapGetAddresses (st : RangeMaps) (mapName : CStr) (hash : HashT)
    (maxAddresses : Int) : Except Fault (Option (List SockaddrIn)) :=
  match rangeMapFindAndLock st mapName hash with
  | none => .ok (some [])
  | some n => rangeMapGetAddressesLoop st maxAddresses st.mallocs (some n) []

/-! ## bucket との対応 -/

structure BucketView where
  bucket : Nat
  ip : Nat
  port : Int
  hashStr : List UInt8
deriving DecidableEq, Repr

/-- `range_map_notify_bucket_online` が node を選ぶ条件。 -/
def BucketView.matches (b : BucketView) (p : RangeNode) : Bool :=
  if b.ip ≠ 0 ∨ b.port ≠ 0 then
    -- remote patch bucket
    !hasFlag p.flags rmNodeMe && p.ip = b.ip && p.port = b.port && p.hash = b.hashStr
  else hasFlag p.flags rmNodeMe && p.hash = b.hashStr

def rangeMapNotifyBucketOnline (st : RangeMaps) (b : BucketView) (mapName : List UInt8) :
    RangeMaps :=
  match rangeMapFindByName2 st mapName with
  | none => st
  | some i => (st.allNodes i).foldl (fun st p => st.setNode p fun n =>
      if b.matches n then { n with bucket := some b.bucket } else n) st

def rangeMapNotifyBucketOffline (st : RangeMaps) (bucket : Nat) (mapName : List UInt8) :
    RangeMaps :=
  match rangeMapFindByName2 st mapName with
  | none => st
  | some i => (st.allNodes i).foldl (fun st p => st.setNode p fun n =>
      if n.bucket = some bucket then { n with bucket := none } else n) st

/-- `esq_range_map_flush_range_node_bucket_connection` が node を直す所。 -/
def rangeMapReconnect (env : Env) (mapName : CStr) (p : RangeNode) : RangeNode :=
  if env.osIpAddressIsMe p.address && env.beeServerIsMyPort p.port then
    { p with
      flags := p.flags ||| rmNodeMe
      bucket := env.esqBeeFindBucket mapName.bytes p.hash 0 0 }
  else
    { p with
      flags := p.flags &&& ~~~rmNodeMe
      bucket := env.esqBeeFindBucket mapName.bytes p.hash p.ip p.port }

def esqRangeMapNotifySelfPortSetup (env : Env) (st : RangeMaps) : RangeMaps :=
  (List.finRange 10).foldl (fun st i =>
    if (st.slot i).name = .empty then st
    else (st.allNodes i).foldl (fun st p =>
      st.setNode p (rangeMapReconnect env (st.slot i).name)) st) st

end Esq
