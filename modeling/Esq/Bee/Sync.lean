import Esq.Bee.Merge

/-!
# bucket の同期

`bee/mkc.c` の `CreateBucketSyncSession`、`bee/bucket.c` の送る側、`bee/db.c` の thread と受ける側。

送る側は、元の bucket の record を cursor で順に読み、key の hash が一致する target へ送る。受ける側は
届いた byte の列を record に分け、一つずつ取り込む。

* 一つの接続の最初の frame だけが map の名前を持つ
* header の `result_buf_size` は hash の文字列の長さに使う
* cursor が尽きても、20 個送って区切っても、sprint の戻り値は 0 である
-/

namespace Esq

open Infra

/-! ## target -/

/-- `bucket_sync_target_t`。`sent` は接続に書いた byte である。 -/
structure SyncTarget where
  address : SockaddrIn
  hash : List UInt8
  /-- 終わりの `x` を含む -/
  hashStr : List UInt8
  socketFd : Int := -1
  err : Option String := none
  sent : List UInt8 := []
deriving DecidableEq, Repr

def syncTargetOf (inetAddr : List UInt8 → Nat) (ip : List UInt8) (port : Int) (hash : List UInt8) :
    Except String SyncTarget :=
  match getIpv4Addr ip with
  | none => .error "invalid ip"
  | some _ =>
    if portNumberInvalid port then .error "invalid port"
    else match getHashString hash with
      | none => .error "invalid hash string"
      | some (_, hashStart, hashLen) =>
        if 0 ≠ hashStart ∨ hash.length ≠ hashLen + 1 then .error "invalid hash string"
        else match hashStr2Bin (hash.take hashLen) with
          | none => .error "failed to transform hash string into binary"
          | some bin =>
            .ok { address := { sinPort := htons port, sinAddr := inetAddr ip }
                  hash := bin, hashStr := hash }

def SyncTarget.sample : SyncTarget where
  address := { sinPort := htons 80, sinAddr := 0 }
  hash := []
  hashStr := [120]

def SyncTarget.same (a b : SyncTarget) : Bool := a.address = b.address && a.hash = b.hash

/-- `bee_create_target_cross_links` が target を一つ繋ぐ。group の先頭どうしを比べる。 -/
def crossLink (groups : List (List SyncTarget)) (target : SyncTarget) : List (List SyncTarget) :=
  match groups with
  | [] => [[target]]
  | g :: gs =>
    if (g.head?.map SyncTarget.hash) = some target.hash then (g ++ [target]) :: gs
    else g :: crossLink gs target

/-- `bee_create_target_cross_links`。`next_hash_list` の順に並べた、`same_hash_next` の列。 -/
def beeCreateTargetCrossLinks (targets : List SyncTarget) : List (List SyncTarget) :=
  targets.foldl crossLink []

/-! ## 送る側の session -/

/-- `bucket_sync_session_t`。`cursor` は `kccurget` がまだ返していない record である。 -/
structure SyncSession where
  rangeMapName : List UInt8
  /-- 終わりの `x` を含む -/
  hashStr : List UInt8
  groups : List (List SyncTarget)
  cursor : List (List UInt8 × List UInt8) := []
  sessionErr : Option String := none
  processed : Nat := 0
deriving DecidableEq, Repr

/-- `bee_mkccb_create_bucket_sync_session` の検査と、作る session。 -/
def createBucketSyncSession (inetAddr : List UInt8 → Nat) (rangeMap hash : List UInt8)
    (triads : List (List UInt8 × Int × List UInt8)) : Except String SyncSession := do
  if triads = [] then
    .error "need to specify range map name, hash string, target ip-port-hash triad(s)"
  else if rangeMap.length ≥ rangeMapNameMax then .error "range map name too long"
  else if (rangeMapNameCheck2 rangeMap).isSome then .error "invalid range map name"
  else if hash.length ≥ hashValueLength then .error "hash string too long"
  else
    let _ ← checkNameHash rangeMap hash "invalid hash string" "invalid hash string"
    let targets ← triads.mapM fun (ip, port, hash) => syncTargetOf inetAddr ip port hash
    if targets.Pairwise fun a b => !a.same b then
      .ok { rangeMapName := rangeMap, hashStr := hash, groups := beeCreateTargetCrossLinks targets }
    else .error "duplicated"

/-! ## 一つの record を送る -/

inductive SyncField where
  | header
  | rangeMapName
  | hash
  | key
  | value
deriving DecidableEq, Repr

/-- 一つの record を一つの target に送る間の、OS の呼び出しの結果。 -/
structure TargetIo where
  /-- `os_open_tcp_socket` の戻り値 -/
  socket : Int
  /-- 長さを渡した `write` の戻り値 -/
  write : SyncField → Nat → Int

def TargetIo.full (fd : Nat) : TargetIo := { socket := fd, write := fun _ n => n }

/-- `write` して、戻り値を `expect` と比べる。合わなければ `p->err` を立てて打ち切る。 -/
def SyncTarget.write (p : SyncTarget) (io : TargetIo) (field : SyncField) (data : List UInt8)
    (expect : Int) (errs : String) : Except SyncTarget SyncTarget :=
  let r := io.write field data.length
  let p := { p with sent := p.sent ++ data.take r.toNat }
  if r ≠ expect then .error { p with err := some errs } else .ok p

def syncHeader (nameLen : Nat) (p : SyncTarget) (key value : List UInt8) : HeaderFromPonyToBee where
  opcode := beeOpSync
  rangeMapNameLen := nameLen
  keyLen := key.length
  dataLen := value.length
  resultBufSize := p.hashStr.length

/-- 接続が無ければ開いて、header と、最初の frame では map の名前を書く。 -/
def syncSendHeader (io : TargetIo) (name key value : List UInt8) (p : SyncTarget) :
    Except SyncTarget SyncTarget :=
  if p.socketFd = -1 then
    if io.socket = -1 then .error { p with err := some "failed to open socket for data sync" }
    else do
      let p ← { p with socketFd := io.socket }.write io .header
        (syncHeader name.length p key value).bytes headerSize "failed to send initial header"
      p.write io .rangeMapName name name.length "failed to send range map name"
  else
    p.write io .header (syncHeader 0 p key value).bytes headerSize "failed to send sync header"

/-- `bee_bucket_sync_data_to_target`。hash を書いた長さは、`ksiz` と比べている。 -/
def beeBucketSyncDataToTarget (io : TargetIo) (name key value : List UInt8) (p : SyncTarget) :
    Int × SyncTarget :=
  let r : Except SyncTarget SyncTarget := do
    let p ← syncSendHeader io name key value p
    let p ← p.write io .hash p.hashStr key.length "failed to send key"
    let p ← p.write io .key key key.length "failed to send key"
    p.write io .value value value.length "failed to send value"
  match r with
  | .ok p => (0, p)
  | .error p => (-1, p)

/-! ## record を順に送る -/

/-- `bee_bucket_sync_data_to_target_list`。`io i` は `i` 番目の target との間の結果である。 -/
def beeBucketSyncDataToTargetList (io : Nat → TargetIo) (name key value : List UInt8) :
    Nat → List SyncTarget → Int × List SyncTarget
  | _, [] => (0, [])
  | i, p :: ps =>
    match beeBucketSyncDataToTarget (io i) name key value p with
    | (0, p) =>
      let (r, ps) := beeBucketSyncDataToTargetList io name key value (i + 1) ps
      (r, p :: ps)
    | (r, p) => (r, p :: ps)

def syncDbItemLoop (io : Nat → TargetIo) (hash : HashT) (name key value : List UInt8) :
    Nat → List (List SyncTarget) → Int × List (List SyncTarget)
  | _, [] => (0, [])
  | i, g :: gs =>
    -- group の先頭の hash で選ぶ
    if (g.head?.any fun p => p.hash.isPrefixOf hash.buf) then
      match beeBucketSyncDataToTargetList io name key value i g with
      | (0, g) =>
        let (r, gs) := syncDbItemLoop io hash name key value (i + g.length) gs
        (r, g :: gs)
      | (r, g) => (r, g :: gs)
    else
      let (r, gs) := syncDbItemLoop io hash name key value (i + g.length) gs
      (r, g :: gs)

/-- `bee_bucket_sync_db_item`。`hashOf` は `get_hash_value`（SHA-256）である。 -/
def beeBucketSyncDbItem (hashOf : List UInt8 → HashT) (io : Nat → TargetIo) (s : SyncSession)
    (key value : List UInt8) : Int × SyncSession :=
  let (r, groups) := syncDbItemLoop io (hashOf key) s.rangeMapName key value 0 s.groups
  (r, { s with groups })

def bucketSyncSprintSize : Nat := 20

/-- `kccurget` の loop。三つ目の成分は `bee_bucket_sync_db_item` に渡した record である。 -/
def sprintLoop (hashOf : List UInt8 → HashT) (io : Nat → Nat → TargetIo) :
    Nat → SyncSession → Int × SyncSession × List (List UInt8 × List UInt8)
  | 0, s => (0, s, [])
  | n + 1, s =>
    match s.cursor with
    | [] => (0, s, [])
    | (key, value) :: rest =>
      match beeBucketSyncDbItem hashOf (io s.processed) { s with cursor := rest } key value with
      | (0, s) =>
        let (r, s, offered) := sprintLoop hashOf io n { s with processed := s.processed + 1 }
        (r, s, (key, value) :: offered)
      | (_, s) => (-1, s, [(key, value)])

/-- sprint の始めに見るもの。`ip` と `port` は初期化されていない `n` の中身である。 -/
structure SprintIo where
  ip : Nat
  port : Int
  /-- `p->kcdb[0]` は session を作ったときの KCDB である -/
  sameKcdb : Bool

def SyncSession.searchKey (s : SyncSession) (sprint : SprintIo) : BeeBucket where
  rangeMapName := s.rangeMapName
  hashStr := s.hashStr.dropLast
  ip := sprint.ip
  port := sprint.port

def beeBucketSyncSessionSprint0 (hashOf : List UInt8 → HashT) (io : Nat → Nat → TargetIo)
    (sprint : SprintIo) (st : Bee) (s : SyncSession) :
    Int × SyncSession × List (List UInt8 × List UInt8) :=
  match st.rbFind (s.searchKey sprint) with
  | none =>
    (-1, { s with
      sessionErr := some "source bucket removed, bucket sync thread can't continue" }, [])
  | some p =>
    if ((st.bucket p).kcdb 0).isNone then
      (-1, { s with
        sessionErr := some "source bucket db removed, bucket sync thread can't continue" }, [])
    else if !sprint.sameKcdb then
      (-1, { s with
        sessionErr := some "local kcdb changed between sync sprints, please restart sync thread" },
        [])
    else sprintLoop hashOf io bucketSyncSprintSize s

/--
`esq_bucket_sync_worker` の loop を `fuel` 回まで回す。loop を抜けたら渡した record の列を返し、
抜けなければ `none` を返す。`sprint i` は `i` 番目の sprint が見るものである。
-/
def esqBucketSyncWorker (hashOf : List UInt8 → HashT) (io : Nat → Nat → TargetIo)
    (sprint : Nat → SprintIo) (st : Bee) :
    Nat → Nat → SyncSession → Option (List (List UInt8 × List UInt8))
  | 0, _, _ => none
  | fuel + 1, i, s =>
    match beeBucketSyncSessionSprint0 hashOf io (sprint i) st s with
    | (0, s, offered) =>
      (esqBucketSyncWorker hashOf io sprint st fuel (i + 1) s).map fun rest => offered ++ rest
    | (_, _, offered) => some offered

/-! ## 受ける側 -/

def HeaderFromPonyToBee.mergeable (h : HeaderFromPonyToBee) : Bool :=
  h.opcode = beeOpSync && 0 ≤ h.rangeMapNameLen && 0 < h.keyLen && 0 ≤ h.dataLen
    && h.rangeMapNameLen < rangeMapNameMax && 0 ≤ h.resultBufSize
    && h.resultBufSize ≤ hashValueLength * 2 && timevalSize ≤ h.dataLen

def HeaderFromPonyToBee.frameSize (h : HeaderFromPonyToBee) : Int :=
  h.rangeMapNameLen + h.keyLen + h.dataLen + h.resultBufSize

/-- buffer から map の名前、hash、key、value を切り出す。名前が無ければ前のままである。 -/
def MergeSession.fill (session : MergeSession) (h : HeaderFromPonyToBee) (buffer : List UInt8) :
    MergeSession :=
  let nameLen := h.rangeMapNameLen.toNat
  let hashLen := h.resultBufSize.toNat
  let keyLen := h.keyLen.toNat
  { session with
    rangeMapName := if nameLen = 0 then session.rangeMapName else buffer.take nameLen
    hashStr := (buffer.drop nameLen).take hashLen
    key := (buffer.drop (nameLen + hashLen)).take keyLen
    value := (buffer.drop (nameLen + hashLen + keyLen)).take h.dataLen.toNat }

/--
`bee_db_start_merge_sprint0` の loop。`stream` は socket からこれから読む byte で、足りない `read` は
接続の終わりである。取り込もうとした frame を順に返す。

長さの和が桁あふれして小さくなると、buffer の外を読む。
-/
def mergeSprintLoop (malloc ok : Nat → Bool) :
    Nat → Bee → MergeSession → HeaderFromPonyToBee → List UInt8 →
      Except Fault (List MergeSession × Bee)
  | 0, st, _, _, _ => .ok ([], st)
  | fuel + 1, st, session, header, stream =>
    if !header.mergeable then .ok ([], st)
    else
      let mallocSize := toInt32 header.frameSize
      if mallocSize < 0 || !malloc fuel then .ok ([], st)
      else if stream.length < mallocSize.toNat then .ok ([], st)
      else if mallocSize ≠ header.frameSize then .error .segv
      else
        let session := session.fill header (stream.take mallocSize.toNat)
        let stream := stream.drop mallocSize.toNat
        match esqBucketMergeItem st session (ok fuel) with
        | (0, st, session) =>
          if stream.length < headerSize then .ok ([session], st)
          else do
            let (sessions, st) ← mergeSprintLoop malloc ok fuel st session
              (.ofBytes (stream.take headerSize)) (stream.drop headerSize)
            .ok (session :: sessions, st)
        | (_, st, session) => .ok ([session], st)

/--
届いた byte の列を受ける。`bee_session_receive_request` が header を読んで渡す。一つの frame は header より
長いので、loop の回数は byte の数を越えない。
-/
def beeDbStartMergeSprint (malloc ok : Nat → Bool) (st : Bee) (stream : List UInt8) :
    Except Fault (List MergeSession × Bee) :=
  if stream.length < headerSize then .ok ([], st)
  else
    let header0 := HeaderFromPonyToBee.ofBytes (stream.take headerSize)
    if !header0.accepted || beeOpTypeMask header0.opcode ≠ beeOpSync then .ok ([], st)
    else mergeSprintLoop malloc ok stream.length st {} header0 (stream.drop headerSize)

end Esq
