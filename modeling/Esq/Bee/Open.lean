import Esq.Bee.BucketKey
import Esq.Infra.SearchTree
import Esq.RangeMap.Basic

/-!
# bucket の開閉

`bee/bucket.c` の bucket を開く関数と閉じる関数、`bee/instance.c` の `bee_server_start_instance`。

bucket は番地で表し、`bucket` がその中身を持つ。開いている bucket は `esq_bucket_rb` にあるもので、
木に入れなかった bucket はすぐに `free` されるから、`malloc` は木に無い番地を返す。

file 名と設定から bucket の欄を決める所（`localBucketFile` など）は状態を見ない。
-/

namespace Esq

open Infra

/-! ## 状態 -/

structure Host where
  inetAddr : CStr → Nat
  osIpAddressIsMe : SockaddrIn → Bool

structure Bee where
  maps : RangeMaps
  esqBucketRb : SearchTree Nat
  bucket : Nat → BeeBucket
  /-- `bee_server_instance.port` -/
  port : Int
  /-- `bee_server_instance.sd` -/
  sd : Int

/-- `esq_bee_init` の直後。`bee_server_instance` は静的な領域なので `port` は 0 である。 -/
def Bee.init : Bee where
  maps := .init
  esqBucketRb := .nil
  bucket _ := { rangeMapName := [], hashStr := [] }
  port := 0
  sd := -1

namespace Bee

variable (st : Bee)

def online : List Nat := st.esqBucketRb.toList

def setBucket (p : Nat) (b : BeeBucket) : Bee :=
  { st with bucket := Function.update st.bucket p b }

def rbFind (n : BeeBucket) : Option Nat :=
  st.esqBucketRb.find fun a => esqBeeBucketCmp n (st.bucket a)

/-- `ESQ_DISK_BUCKET_RB_INSERT`。比較の道は `ESQ_DISK_BUCKET_RB_FIND` と同じで、等しい bucket があれば返す。 -/
def rbInsert (rotate : SearchTree Nat → SearchTree Nat) (p : Nat) (b : BeeBucket) :
    Option Nat × Bee :=
  match st.rbFind b with
  | some ep => (some ep, st)
  | none =>
    (none, { st.setBucket p b with
      esqBucketRb :=
        (st.esqBucketRb.insert (fun a => esqBeeBucketCmp b (st.bucket a)) p).rotate rotate })

def malloc (oracle : Option Nat) : Option Nat := oracle.filter fun p => p ∉ st.online

def notifyOnline (p : Nat) : Bee :=
  let b := st.bucket p
  { st with maps := rangeMapNotifyBucketOnline st.maps ⟨p, b.ip, b.port, b.hashStr⟩ b.rangeMapName }

end Bee

def esqBeeFindBucket (st : Bee) (rangeMap hash : List UInt8) (ip : Nat) (port : Int) : Option Nat :=
  st.rbFind { rangeMapName := rangeMap, hashStr := hash, ip, port }

def beeServerIsMyPort (st : Bee) (port : Int) : Bool := st.port ≠ -1 && port = st.port

def Bee.env (st : Bee) (host : Host) : Env where
  inetAddr := host.inetAddr
  osIpAddressIsMe := host.osIpAddressIsMe
  beeServerIsMyPort := beeServerIsMyPort st
  esqBeeFindBucket := esqBeeFindBucket st

/-! ## bucket を作る -/

def BeeBucket.ofBuf (buf : List UInt8) (nameAt nameLen hashAt hashLen : Nat) (ip : Nat)
    (port : Int) : BeeBucket where
  rangeMapName := (buf.drop nameAt).take nameLen
  hashStr := (buf.drop hashAt).take hashLen
  ip := ip
  port := port
  buf := buf

def portNumberInvalid (port : Int) : Bool := port < 0 || port > 65535

def dotsOf (dName : List UInt8) : List Nat :=
  (List.range dName.length).filter fun i => dName.getD i 0 = 46

def isKct (dName : List UInt8) (dot : Nat) : Bool :=
  dName.getD (dot + 1) 0 = 107 && dName.getD (dot + 2) 0 = 99 && dName.getD (dot + 3) 0 = 116 &&
    dName.getD (dot + 4) 0 = 0

def betweenDots (dName : List UInt8) (dot1 dot2 : Nat) : List UInt8 :=
  (dName.drop (dot1 + 1)).take (dot2 - dot1 - 1)

/-- 両端の dot の間が、ちょうど一つの hash の文字列である。その長さを返す。 -/
def hashBetweenDots (dName : List UInt8) (dot1 dot2 : Nat) : Option Nat :=
  match getHashString (betweenDots dName dot1 dot2) with
  | none => none
  | some (_, hashStart, hashStrLen) =>
    if 0 ≠ hashStart ∨ dot2 - dot1 - 2 ≠ hashStrLen then none else some hashStrLen

def idxOfChar (c : UInt8) : Option (Fin 2) :=
  if c = 48 then some 0 else if c = 49 then some 1 else none

/-- `bee_open_local_bucket_file` の検査と、bucket の欄。`none` は読み飛ばす file である。 -/
def localBucketFile (folder dName : List UInt8) (d0 d1 d2 : Nat) : Option (BeeBucket × Fin 2) :=
  if dName.getD (d1 - 1) 0 ≠ 120 then none
  else match idxOfChar (dName.getD (d2 - 1) 0) with
    | none => none
    | some idx =>
      if !isKct dName d2 then none
      else if (rangeMapNameCheck2 (dName.take d0)).isSome then none
      else match hashBetweenDots dName d0 d1 with
        | none => none
        | some hashStrLen =>
          some (.ofBuf (folder ++ [47] ++ dName) (folder.length + 1) d0
            (folder.length + 1 + d0 + 1) hashStrLen 0 0, idx)

/-- `bee_open_remote_patch_bucket_file` の検査と、bucket の欄。 -/
def remotePatchBucketFile (folder dName : List UInt8) (d0 d4 d5 d6 : Nat) :
    Option (BeeBucket × Fin 2) :=
  if dName.getD (d6 - 1) 0 ≠ 120 then none
  else if !isKct dName d6 then none
  else if (rangeMapNameCheck2 (dName.take d0)).isSome then none
  else match getIpv4Addr (betweenDots dName d0 d4) with
    | none => none
    | some (_, ap) =>
      match getInteger1000000 (betweenDots dName d4 d5) with
      | none => none
      | some (_, port) =>
        if portNumberInvalid port then none
        else match hashBetweenDots dName d5 d6 with
          | none => none
          | some hashStrLen =>
            some (.ofBuf (folder ++ [47] ++ dName) (folder.length + 1) d0
              (folder.length + 1 + d5 + 1) hashStrLen ap port, 1)

def maxDiskBucketFolder : Nat := 100

def decimal (n : Nat) : List UInt8 := (Nat.toDigits 10 n).map fun c => UInt8.ofNat c.toNat

/-- `bee_add_disk_bucket_by_config` の引数。`ip` と `port` が無いのは local の bucket である。 -/
structure DiskBucketConfig where
  folder : CStr
  rangeMap : List UInt8
  ip : Option (List UInt8)
  port : Int
  hash : List UInt8
  idx : Int

def idxOfInt (idx : Int) : Option (Fin 2) :=
  if idx = 0 then some 0 else if idx = 1 then some 1 else none

structure ConfigChecked where
  folder : List UInt8
  /-- remote の bucket では、番地の文字列とその値 -/
  remote : Option (List UInt8 × Nat)
  idx : Fin 2
  hashLen : Nat

/-- `create_local_bucket` を決め、remote なら番地を読む。 -/
def checkRemote (c : DiskBucketConfig) : Except String (Option (List UInt8)) :=
  match c.ip with
  | none => if c.port = -1 then .ok none else .error "design error"
  | some ip => if ip ≠ [] ∧ c.port ≠ -1 then .ok (some ip) else .error "design error"

def checkIpPort (port : Int) : Option (List UInt8) → Except String (Option (List UInt8 × Nat))
  | none => .ok none
  | some ip =>
    match getIpv4Addr ip with
    | none => .error "invalid IP address string"
    | some (r, ap) =>
      if r ≠ ip.length then .error "invalid IP address string"
      else if portNumberInvalid port then .error "invalid port number"
      else .ok (some (ip, ap))

def checkFolder (folder : CStr) : Except String (List UInt8) :=
  if folder.strnlen (maxDiskBucketFolder + 3) > maxDiskBucketFolder then
    .error "folder name too long"
  else if folder.bytes = [] then .ok [46] else .ok folder.bytes

def checkNameHash (rangeMap hash : List UInt8) (invalidHash invalidFormat : String) :
    Except String Nat :=
  match rangeMapNameCheck2 rangeMap with
  | some errs => .error errs
  | none =>
    match getHashString hash with
    | none => .error invalidHash
    | some (_, hashStart, hashLen) =>
      if 0 ≠ hashStart ∨ hash.length ≠ hashLen + 1 then .error invalidFormat else .ok hashLen

def checkConfig (c : DiskBucketConfig) : Except String ConfigChecked := do
  let ip ← checkRemote c
  match idxOfInt c.idx with
  | none => .error "value of bucket idx should be 0 or 1"
  | some idx =>
    let remote ← checkIpPort c.port ip
    let folder ← checkFolder c.folder
    let hashLen ← checkNameHash c.rangeMap c.hash "invalid hash string" "invalid hash string format"
    .ok { folder, remote, idx, hashLen }

/-- `bee_add_disk_bucket_by_config` の bucket と、`buf` の大きさ。 -/
def configBucket (c : DiskBucketConfig) (k : ConfigChecked) : BeeBucket × Nat :=
  match k.remote with
  | none =>
    (.ofBuf (k.folder ++ [47] ++ c.rangeMap ++ [46] ++ c.hash ++ [46] ++ decimal k.idx
        ++ [46, 107, 99, 116])
      (k.folder.length + 1) c.rangeMap.length (k.folder.length + 1 + c.rangeMap.length + 1)
      k.hashLen 0 0,
      k.folder.length + 1 + c.rangeMap.length + 1 + (k.hashLen + 1) + 7)
  | some (ip, ap) =>
    let buf := k.folder ++ [47] ++ c.rangeMap ++ [46] ++ ip ++ [46] ++ decimal c.port.toNat ++ [46]
      ++ c.hash ++ [46, 107, 99, 116]
    (.ofBuf buf (k.folder.length + 1) c.rangeMap.length (buf.length - 5 - k.hashLen) k.hashLen ap
      c.port,
      k.folder.length + 1 + c.rangeMap.length + 1 + ip.length + 1 + 5 + 1 + (k.hashLen + 1) + 5)

def memBucket (rangeMapName hash : List UInt8) (hashLen : Nat) : BeeBucket :=
  .ofBuf (rangeMapName ++ [46] ++ hash ++ [46, 37]) 0 rangeMapName.length
    (rangeMapName.length + 1) hashLen 0 0

/-! ## bucket を開く -/

/-- bucket を一つ開く間に呼ばれる `malloc` と `bee_open_kcdb` の結果、木の回転。 -/
structure OpenIo where
  malloc : Option Nat
  /-- 開いた KCDB の中身。失敗は `none` で表す -/
  kcdb : Option Kcdb
  rotate : SearchTree Nat → SearchTree Nat

/-- `bee_open_disk_bucket`。`p` は `bucket` の番地である。 -/
def beeOpenDiskBucket (io : OpenIo) (st : Bee) (p : Nat) (bucket : BeeBucket) (idx : Fin 2) :
    Option String × Bee :=
  match st.rbFind bucket with
  | some q =>
    if ((st.bucket q).kcdb idx).isSome then
      (some "bucket for the same map, same range, same index already open", st)
    else match io.kcdb with
      | none => (some "failed to open disk db", st)
      | some kcdb => (none, st.setBucket q ((st.bucket q).setKcdb idx (some kcdb)))
  | none =>
    match io.kcdb with
    | none => (some "failed to open disk db", st)
    | some kcdb =>
      (none, (st.rbInsert io.rotate p (bucket.setKcdb idx (some kcdb))).2.notifyOnline p)

def allocAndOpen (io : OpenIo) (st : Bee) (noMemory : String) (bucket : BeeBucket) (idx : Fin 2) :
    Option String × Bee :=
  match st.malloc io.malloc with
  | none => (some noMemory, st)
  | some p => beeOpenDiskBucket io st p bucket idx

def beeOpenLocalBucketFile (io : OpenIo) (st : Bee) (folder dName : List UInt8) (d0 d1 d2 : Nat) :
    Option String × Bee :=
  match localBucketFile folder dName d0 d1 d2 with
  | none => (none, st)
  | some (bucket, idx) =>
    allocAndOpen io st "no memory for opening local bucket from folder" bucket idx

def beeOpenRemotePatchBucketFile (io : OpenIo) (st : Bee) (folder dName : List UInt8)
    (d0 d4 d5 d6 : Nat) : Option String × Bee :=
  match remotePatchBucketFile folder dName d0 d4 d5 d6 with
  | none => (none, st)
  | some (bucket, idx) =>
    allocAndOpen io st "no memory for opening remote patch bucket from folder" bucket idx

def beeOpenBucketFile (io : OpenIo) (st : Bee) (folder : List UInt8) (dName : CStr) :
    Option String × Bee :=
  match dotsOf dName.bytes with
  | [d0, d1, d2] => beeOpenLocalBucketFile io st folder dName.bytes d0 d1 d2
  | [d0, _, _, _, d4, d5, d6] =>
    beeOpenRemotePatchBucketFile io st folder dName.bytes d0 d4 d5 d6
  | _ => (none, st)

structure Dirent where
  dName : CStr
  /-- `DT_REG` -/
  isReg : Bool
  io : OpenIo

def beeOpenBucketFiles (folder : List UInt8) : Bee → List Dirent → Option String × Bee
  | st, [] => (none, st)
  | st, ent :: ents =>
    if !ent.isReg then beeOpenBucketFiles folder st ents
    else match beeOpenBucketFile ent.io st folder ent.dName with
      | (some errs, st) => (some errs, st)
      | (none, st) => beeOpenBucketFiles folder st ents

/-- `bee_open_buckets_from_folder`。`dir` は `opendir` が成功したときの中身である。 -/
def beeOpenBucketsFromFolder (st : Bee) (folder : List UInt8) (dir : Option (List Dirent)) :
    Option String × Bee :=
  if folder.length > maxDiskBucketFolder then (some "folder name too long", st)
  else match dir with
    | none => (some "failed to open folder", st)
    | some ents => beeOpenBucketFiles (if folder = [] then [46] else folder) st ents

def beeAddDiskBucketByConfig (io : OpenIo) (st : Bee) (c : DiskBucketConfig) :
    Option String × Bee :=
  match checkConfig c with
  | .error errs => (some errs, st)
  | .ok k =>
    match st.malloc io.malloc with
    | none => (some "no memory for new bucket", st)
    | some p =>
      if (configBucket c k).1.buf.length ≥ (configBucket c k).2 then (some "design error", st)
      else beeOpenDiskBucket io st p (configBucket c k).1 k.idx

structure ShiftIo where
  malloc : Option Nat
  kcdbnew : Bool
  kcdbopen : Bool
  rotate : SearchTree Nat → SearchTree Nat

/-- 新しい KCDB を入れる。二つあれば古い方を閉じてずらす。 -/
def BeeBucket.shift (b : BeeBucket) (kcdb : Kcdb) : BeeBucket :=
  match b.kcdb 0, b.kcdb 1 with
  | some _, some db1 => (b.setKcdb 0 (some db1)).setKcdb 1 (some kcdb)
  | some _, none => b.setKcdb 1 (some kcdb)
  | none, _ => b.setKcdb 0 (some kcdb)

def beeShiftMemBucket (io : ShiftIo) (st : Bee) (rangeMapName hash : List UInt8) :
    Option String × Bee :=
  match checkNameHash rangeMapName hash "invalid hash string (mem bucket)"
      "invalid hash string format (mem bucket)" with
  | .error errs => (some errs, st)
  | .ok hashLen =>
    match st.malloc io.malloc with
    | none => (some "no memory for new memory bucket", st)
    | some a =>
      if !io.kcdbnew then (some "no memory for new memory db", st)
      else if !io.kcdbopen then (some "failed to open memory kcdb", st)
      else
        let (ep, st) := st.rbInsert io.rotate a (memBucket rangeMapName hash hashLen)
        let p := ep.getD a
        let st' := st.setBucket p ((st.bucket p).shift .empty)
        if ((st.bucket p).kcdb 0).isSome then (none, st') else (none, st'.notifyOnline p)

/-- `bee_bucket_set_offline`。`ip` と `port` は初期化されていない `n` の中身である。 -/
def beeBucketSetOffline (rotate : SearchTree Nat → SearchTree Nat) (ip : Nat) (port : Int)
    (st : Bee) (rangeMap hash : List UInt8) (idx : Int) : Option String × Bee :=
  if (rangeMapNameCheck2 rangeMap).isSome then (some "invalid range map name", st)
  else if (getHashString hash).isNone then (some "invalid hash string", st)
  else match idxOfInt idx with
    | none => (some "bucket index should be 0 or 1", st)
    | some idx =>
      match st.rbFind { rangeMapName := rangeMap, hashStr := hash, ip, port } with
      | none => (some "no such range map item", st)
      | some p =>
        if ((st.bucket p).kcdb idx).isNone then
          (some "the range map ok, but the bucket serve that idx is not attached", st)
        else
          let b := (st.bucket p).setKcdb idx none
          let st := st.setBucket p b
          if (b.kcdb 0).isNone && (b.kcdb 1).isNone then
            (none, { st with
              esqBucketRb := (st.esqBucketRb.erase p).rotate rotate
              maps := rangeMapNotifyBucketOffline st.maps p b.rangeMapName })
          else (none, st)

/-! ## server -/

/-- `bee_server_start_instance` の間に呼ばれるものの結果。 -/
structure StartIo where
  host : Host
  /-- `esq_session_new` が成功する -/
  sessionNew : Bool
  /-- `bee_server_prepare_socket` の error か、`sd` -/
  prepare : Except String Nat

def beeServerInstanceClose (st : Bee) : Bee := { st with sd := -1 }

def beeServerStartInstance (io : StartIo) (st : Bee) (port : Int) : Option String × Bee :=
  if port ≤ 0 then (some "invalid port number", st)
  else if st.sd ≠ -1 then (some "instances already started", st)
  else if !io.sessionNew then (some "failed to create new esq session", st)
  else
    let st := { st with port }
    match io.prepare with
    | .error errs => (some errs, beeServerInstanceClose st)
    | .ok sd =>
      let st := { st with sd }
      (none, { st with maps := esqRangeMapNotifySelfPortSetup (st.env io.host) st.maps })

/-! ## 操作 -/

inductive BeeOp where
  | rangeMapNew (name : CStr)
  | addNode (host : Host) (oracle : Option Nat) (mapName ipStr : CStr) (port : Int32)
      (flags : BitVec 32) (hashString : CStr)
  | delNode (mapName ipStr : CStr) (port : Int32) (hashString : CStr)
  | delAllNode (mapName : CStr)
  | flush (name : CStr)
  | openBucketsFromFolder (folder : List UInt8) (dir : Option (List Dirent))
  | addDiskBucket (io : OpenIo) (folder : CStr) (rangeMap hash : List UInt8) (idx : Int32)
  | addRemotePatchBucket (io : OpenIo) (folder : CStr) (rangeMap ip : List UInt8) (port : Int32)
      (hash : List UInt8)
  | shiftMemBucket (io : ShiftIo) (rangeMap hash : List UInt8)
  | bucketSetOffline (rotate : SearchTree Nat → SearchTree Nat) (ip : Nat) (port : Int32)
      (rangeMap hash : List UInt8) (idx : Int32)
  | startBeeServer (io : StartIo) (port : Int32)
  | serverClose

def Bee.onMaps (st : Bee) (r : Option String × RangeMaps) : Option String × Bee :=
  (r.1, { st with maps := r.2 })

/-- 一つの操作と、その戻り値。`none` は NULL、すなわち成功である。 -/
def beeStep (st : Bee) : BeeOp → Option String × Bee
  | .rangeMapNew name => st.onMaps (rangeMapNew st.maps name)
  | .addNode host oracle mapName ipStr port flags hashString =>
    st.onMaps
      (rangeMapAddNode (st.env host) oracle st.maps mapName ipStr port.toInt flags hashString)
  | .delNode mapName ipStr port hashString =>
    st.onMaps (rangeMapDelNode st.maps mapName ipStr port.toInt hashString)
  | .delAllNode mapName => st.onMaps (rangeMapDelAllNode st.maps mapName)
  | .flush name => st.onMaps (rangeMapFlush st.maps name)
  | .openBucketsFromFolder folder dir => beeOpenBucketsFromFolder st folder dir
  | .addDiskBucket io folder rangeMap hash idx =>
    beeAddDiskBucketByConfig io st
      { folder, rangeMap, ip := none, port := -1, hash, idx := idx.toInt }
  | .addRemotePatchBucket io folder rangeMap ip port hash =>
    beeAddDiskBucketByConfig io st
      { folder, rangeMap, ip := some ip, port := port.toInt, hash, idx := 1 }
  | .shiftMemBucket io rangeMap hash => beeShiftMemBucket io st rangeMap hash
  | .bucketSetOffline rotate ip port rangeMap hash idx =>
    beeBucketSetOffline rotate ip port.toInt st rangeMap hash idx.toInt
  | .startBeeServer io port => beeServerStartInstance io st port.toInt
  | .serverClose => (none, beeServerInstanceClose st)

def beeRun (st : Bee) (ops : List BeeOp) : Bee := ops.foldl (fun st op => (beeStep st op).2) st

end Esq
