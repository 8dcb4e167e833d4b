import Esq.Bee.Sync
import Esq.RangeMap.OnLock

/-!
# range map の lock を取る bee の操作

`bee/db.c` と `bee/bucket.c` の関数を、`range_map_rwlock` を取る所と放す所を入れて書き直したもの。

KCDB を開く所も、他の node へ送る所も、同期の record を受ける所も、lock を持ったまま行われる。
失敗して抜ける道は、どれも自分で lock を放す。
-/

namespace Esq

open Infra Infra.Locking

/-! ## lock の無い定義 -/

/-- `bee_bucket_start_sync_session`。`cursor` は `kcdbcursor` の結果で、`kccurjump` の後に読める record である。 -/
def beeBucketStartSyncSession (sprint : SprintIo) (cursor : Option (List (List UInt8 × List UInt8)))
    (st : Bee) (s : SyncSession) : Option String × SyncSession :=
  match st.rbFind (s.searchKey sprint) with
  | none => (some "source bucket do not exist", s)
  | some p =>
    if ((st.bucket p).kcdb 0).isNone then (some "source bucket do not have main db", s)
    else match cursor with
      | none => (some "failed to create new kcdbcursor", s)
      | some cursor => (none, { s with cursor })

def closeBucketsLoop (rotate : Nat → SearchTree Nat → SearchTree Nat) : Nat → Bee → Bee
  | 0, st => st
  | n + 1, st =>
    match st.online with
    | [] => st
    | p :: _ =>
      closeBucketsLoop rotate n
        { st with esqBucketRb := (st.esqBucketRb.erase p).rotate (rotate n) }

def beeCloseAllBuckets (rotate : Nat → SearchTree Nat → SearchTree Nat) (st : Bee) : Bee :=
  closeBucketsLoop rotate st.online.length st

namespace OnLock

/-! ## 要求の処理 -/

def beeDbGet (node : BeeNode) (buckets : Buckets) (malloc : Option ReplyFromBeeToPony2)
    (ctx : BeeServiceCtx) : RangeLocked (Int × BeeServiceCtx) :=
  if ctx.header.resultBufSize ≤ 0 then
    pure (esqErrorParam, (ctx.setReplyPtr none).exx esqErrorParam)
  else
    match malloc with
    | none => pure (esqErrorMemory, (ctx.setReplyPtr none).exx esqErrorMemory)
    | some mem => do
      match ← rangeMapFindAndLock node.maps ctx.mapName (node.sha256 ctx.key) with
      | none => pure (esqErrorNotfound, (ctx.setReplyPtr mem).exx esqErrorNotfound)
      | some p => do
        let r := beeDbGetLocal node.maps buckets ctx.key ctx.header.resultBufSize.toNat
          (rangeNodes node.maps (some p))
        rangeMapUnlock
        match r with
        | none => pure (esqErrorNotfound, (ctx.setReplyPtr mem).exx esqErrorNotfound)
        | some (written, resultSize) =>
          let result := overwrite mem.result written
          if resultSize ≤ timevalSize then
            pure (esqErrorNotfound,
              (ctx.setReplyPtr (some { mem with result })).exx esqErrorNotfound)
          else
            pure (esqOk, ctx.setReplyPtr (some
              { returnCode := esqOk, resultLen := resultSize - timevalSize, result }))

def beeDbWrite (node : BeeNode) (io : WriteIo)
    (writeLocal : (Nat → Bool) → List Nat → Buckets → Int × Buckets) (op : Int)
    (buckets : Buckets) (ctx : BeeServiceCtx) (needSync : Bool) : RangeLocked WriteResult := do
  match ← rangeMapFindAndLock node.maps ctx.mapName (node.sha256 ctx.key) with
  | none =>
    pure { r := esqErrorNotfound, ctx := ctx.exx esqErrorNotfound, buckets, forwarded := [] }
  | some p =>
    let nodes := rangeNodes node.maps (some p)
    let (r, buckets) := writeLocal io.kcdbOk nodes buckets
    if r ≠ 0 then do
      rangeMapUnlock
      pure { r, ctx := ctx.exx r, buckets, forwarded := [] }
    else if needSync then do
      let (r, forwarded) := beeDbSyncToRemote node.maps io.forward nodes
      rangeMapUnlock
      pure { r, ctx := (ctx.forwardAs op forwarded).exx r, buckets, forwarded }
    else do
      rangeMapUnlock
      pure { r, ctx := ctx.exx esqOk, buckets, forwarded := [] }

def beeDbSet (node : BeeNode) (io : WriteIo) (buckets : Buckets) (ctx : BeeServiceCtx)
    (needSync : Bool) : RangeLocked WriteResult :=
  beeDbWrite node io (beeDbSetLocal node.maps ctx) beeOpInternalSet buckets ctx needSync

def beeDbDel (node : BeeNode) (io : WriteIo) (buckets : Buckets) (ctx : BeeServiceCtx)
    (needSync : Bool) : RangeLocked WriteResult :=
  beeDbWrite node io (beeDbDelLocal node.maps ctx) beeOpInternalDel buckets ctx needSync

/-- `bee_db_start_merge_sprint0`。`timeout` は `os_socket_set_timeout` が成功することである。 -/
def beeDbStartMergeSprint0 (timeout : Bool) (malloc ok : Nat → Bool) (st : Bee)
    (header0 : HeaderFromPonyToBee) (stream : List UInt8) :
    Except Fault (List MergeSession × Bee) :=
  if !timeout then .ok ([], st)
  else mergeSprintLoop malloc ok (headerSize + stream.length) st {} header0 stream

/-- `bee_db_start_merge_sprint`。`stream` は `header0` の後に届いた byte である。 -/
def beeDbStartMergeSprint (timeout : Bool) (malloc ok : Nat → Bool) (st : Bee)
    (header0 : HeaderFromPonyToBee) (stream : List UInt8) :
    RangeLocked (List MergeSession × Bee) := do
  rangeMapRlock
  let r ← lift (beeDbStartMergeSprint0 timeout malloc ok st header0 stream)
  rangeMapUnlock
  pure r

/-! ## bucket の開閉 -/

def beeOpenDiskBucket (io : OpenIo) (st : Bee) (p : Nat) (bucket : BeeBucket) (idx : Fin 2) :
    RangeLocked (Option String × Bee) := do
  rangeMapWlock
  match st.rbFind bucket with
  | some q =>
    if ((st.bucket q).kcdb idx).isSome then do
      rangeMapUnlock
      pure (some "bucket for the same map, same range, same index already open", st)
    else match io.kcdb with
      | none => do
        rangeMapUnlock
        pure (some "failed to open disk db", st)
      | some kcdb => do
        let st := st.setBucket q ((st.bucket q).setKcdb idx (some kcdb))
        rangeMapUnlock
        pure (none, st)
  | none =>
    match io.kcdb with
    | none => do
      rangeMapUnlock
      pure (some "failed to open disk db", st)
    | some kcdb => do
      let st := (st.rbInsert io.rotate p (bucket.setKcdb idx (some kcdb))).2.notifyOnline p
      rangeMapUnlock
      pure (none, st)

/-- `bee_shift_mem_bucket`。lock を取るのは KCDB を開いた後である。 -/
def beeShiftMemBucket (io : ShiftIo) (st : Bee) (rangeMapName hash : List UInt8) :
    RangeLocked (Option String × Bee) :=
  match checkNameHash rangeMapName hash "invalid hash string (mem bucket)"
      "invalid hash string format (mem bucket)" with
  | .error errs => pure (some errs, st)
  | .ok hashLen =>
    match st.malloc io.malloc with
    | none => pure (some "no memory for new memory bucket", st)
    | some a =>
      if !io.kcdbnew then pure (some "no memory for new memory db", st)
      else if !io.kcdbopen then pure (some "failed to open memory kcdb", st)
      else do
        rangeMapWlock
        let (ep, st) := st.rbInsert io.rotate a (memBucket rangeMapName hash hashLen)
        let p := ep.getD a
        let st' := st.setBucket p ((st.bucket p).shift .empty)
        if ((st.bucket p).kcdb 0).isSome then do
          rangeMapUnlock
          pure (none, st')
        else do
          let st' := st'.notifyOnline p
          rangeMapUnlock
          pure (none, st')

def beeBucketSetOffline (rotate : SearchTree Nat → SearchTree Nat) (ip : Nat) (port : Int)
    (st : Bee) (rangeMap hash : List UInt8) (idx : Int) : RangeLocked (Option String × Bee) :=
  if (rangeMapNameCheck2 rangeMap).isSome then pure (some "invalid range map name", st)
  else if (getHashString hash).isNone then pure (some "invalid hash string", st)
  else match idxOfInt idx with
    | none => pure (some "bucket index should be 0 or 1", st)
    | some idx => do
      rangeMapWlock
      match st.rbFind { rangeMapName := rangeMap, hashStr := hash, ip, port } with
      | none => do
        rangeMapUnlock
        pure (some "no such range map item", st)
      | some p =>
        if ((st.bucket p).kcdb idx).isNone then do
          rangeMapUnlock
          pure (some "the range map ok, but the bucket serve that idx is not attached", st)
        else
          let b := (st.bucket p).setKcdb idx none
          let st := st.setBucket p b
          let st :=
            if (b.kcdb 0).isNone && (b.kcdb 1).isNone then
              { st with
                esqBucketRb := (st.esqBucketRb.erase p).rotate rotate
                maps := rangeMapNotifyBucketOffline st.maps p b.rangeMapName }
            else st
          do
            rangeMapUnlock
            pure (none, st)

def beeCloseAllBuckets (rotate : Nat → SearchTree Nat → SearchTree Nat) (st : Bee) :
    RangeLocked Bee := do
  rangeMapWlock
  let st := Esq.beeCloseAllBuckets rotate st
  rangeMapUnlock
  pure st

/-! ## 同期 -/

def beeBucketStartSyncSession (sprint : SprintIo) (cursor : Option (List (List UInt8 × List UInt8)))
    (st : Bee) (s : SyncSession) : RangeLocked (Option String × SyncSession) := do
  rangeMapRlock
  match st.rbFind (s.searchKey sprint) with
  | none => do
    rangeMapUnlock
    pure (some "source bucket do not exist", s)
  | some p =>
    if ((st.bucket p).kcdb 0).isNone then do
      rangeMapUnlock
      pure (some "source bucket do not have main db", s)
    else match cursor with
      | none => do
        rangeMapUnlock
        pure (some "failed to create new kcdbcursor", s)
      | some cursor => do
        let s := { s with cursor }
        rangeMapUnlock
        pure (none, s)

def beeBucketSyncSessionSprint (hashOf : List UInt8 → HashT) (io : Nat → Nat → TargetIo)
    (sprint : SprintIo) (st : Bee) (s : SyncSession) :
    RangeLocked (Int × SyncSession × List (List UInt8 × List UInt8)) := do
  rangeMapRlock
  let r := beeBucketSyncSessionSprint0 hashOf io sprint st s
  rangeMapUnlock
  pure r

end OnLock

/-! ## lock の無い定義との一致 -/

section

variable {node : BeeNode} {buckets : Buckets} {ctx : BeeServiceCtx} {needSync : Bool} {st : Bee}
  {rangeMap hash : List UInt8} {idx : Fin 2} {s : SyncSession} {sprint : SprintIo}

theorem result_beeDbGet {malloc : Option ReplyFromBeeToPony2} :
    (OnLock.beeDbGet node buckets malloc ctx).result = .ok (beeDbGet node buckets malloc ctx) := by
  unfold OnLock.beeDbGet beeDbGet BeeNode.findNodes
  split
  · rfl
  · cases malloc with
    | none => rfl
    | some mem =>
      simp only []
      rw [result_bind, result_rangeMapFindAndLock, ok_bind]
      cases rangeMapFindAndLock node.maps ctx.mapName (node.sha256 ctx.key) with
      | none => rfl
      | some p =>
        simp only [result_bind, result_release, ok_bind]
        cases beeDbGetLocal node.maps buckets ctx.key ctx.header.resultBufSize.toNat
            (rangeNodes node.maps (some p)) with
        | none => rfl
        | some r =>
          simp only []
          split
          · rfl
          · rfl

theorem result_beeDbWrite {io : WriteIo}
    {writeLocal : (Nat → Bool) → List Nat → Buckets → Int × Buckets} {op : Int} :
    (OnLock.beeDbWrite node io writeLocal op buckets ctx needSync).result
      = .ok (beeDbWrite node io writeLocal op buckets ctx needSync) := by
  unfold OnLock.beeDbWrite beeDbWrite BeeNode.findNodes
  rw [result_bind, result_rangeMapFindAndLock, ok_bind]
  cases rangeMapFindAndLock node.maps ctx.mapName (node.sha256 ctx.key) with
  | none => rfl
  | some p =>
    simp only []
    split
    · rfl
    · split
      · rfl
      · rfl

theorem result_beeDbStartMergeSprint {malloc ok : Nat → Bool} {stream : List UInt8}
    (hlen : headerSize ≤ stream.length)
    (haccept : (HeaderFromPonyToBee.ofBytes (stream.take headerSize)).accepted)
    (hop : beeOpTypeMask (HeaderFromPonyToBee.ofBytes (stream.take headerSize)).opcode
      = beeOpSync) :
    (OnLock.beeDbStartMergeSprint true malloc ok st
      (.ofBytes (stream.take headerSize)) (stream.drop headerSize)).result
      = beeDbStartMergeSprint malloc ok st stream := by
  have hfuel : headerSize + (stream.length - headerSize) = stream.length := by omega
  unfold OnLock.beeDbStartMergeSprint OnLock.beeDbStartMergeSprint0 beeDbStartMergeSprint
  simp [hfuel, haccept, hop, Nat.not_lt.mpr hlen]

theorem result_beeOpenDiskBucket {io : OpenIo} {p : Nat} {bucket : BeeBucket} :
    (OnLock.beeOpenDiskBucket io st p bucket idx).result
      = .ok (beeOpenDiskBucket io st p bucket idx) := by
  unfold OnLock.beeOpenDiskBucket beeOpenDiskBucket
  rw [result_bind, result_acquire, ok_bind]
  cases st.rbFind bucket with
  | none =>
    cases io.kcdb with
    | none => rfl
    | some kcdb => rfl
  | some q =>
    simp only []
    split
    · rfl
    · cases io.kcdb with
      | none => rfl
      | some kcdb => rfl

theorem result_beeShiftMemBucket {io : ShiftIo} :
    (OnLock.beeShiftMemBucket io st rangeMap hash).result
      = .ok (beeShiftMemBucket io st rangeMap hash) := by
  unfold OnLock.beeShiftMemBucket beeShiftMemBucket
  cases checkNameHash rangeMap hash "invalid hash string (mem bucket)"
      "invalid hash string format (mem bucket)" with
  | error errs => rfl
  | ok hashLen =>
    simp only []
    cases st.malloc io.malloc with
    | none => rfl
    | some a =>
      simp only []
      split
      · rfl
      · split
        · rfl
        · rw [result_bind, result_acquire, ok_bind]
          split
          · rfl
          · rfl

theorem result_beeBucketSetOffline {rotate : SearchTree Nat → SearchTree Nat} {ip : Nat}
    {port idx : Int} :
    (OnLock.beeBucketSetOffline rotate ip port st rangeMap hash idx).result
      = .ok (beeBucketSetOffline rotate ip port st rangeMap hash idx) := by
  unfold OnLock.beeBucketSetOffline beeBucketSetOffline
  split
  · rfl
  · split
    · rfl
    · cases idxOfInt idx with
      | none => rfl
      | some idx =>
        simp only []
        rw [result_bind, result_acquire, ok_bind]
        cases st.rbFind { rangeMapName := rangeMap, hashStr := hash, ip, port } with
        | none => rfl
        | some p =>
          simp only []
          split
          · rfl
          · rw [result_bind, result_release, ok_bind]
            split
            · rfl
            · rfl

theorem result_beeCloseAllBuckets {rotate : Nat → SearchTree Nat → SearchTree Nat} :
    (OnLock.beeCloseAllBuckets rotate st).result = .ok (beeCloseAllBuckets rotate st) := rfl

theorem result_beeBucketStartSyncSession {cursor : Option (List (List UInt8 × List UInt8))} :
    (OnLock.beeBucketStartSyncSession sprint cursor st s).result
      = .ok (beeBucketStartSyncSession sprint cursor st s) := by
  unfold OnLock.beeBucketStartSyncSession beeBucketStartSyncSession
  rw [result_bind, result_acquire, ok_bind]
  cases st.rbFind (s.searchKey sprint) with
  | none => rfl
  | some p =>
    simp only []
    split
    · rfl
    · cases cursor with
      | none => rfl
      | some cursor => rfl

theorem result_beeBucketSyncSessionSprint {hashOf : List UInt8 → HashT}
    {io : Nat → Nat → TargetIo} :
    (OnLock.beeBucketSyncSessionSprint hashOf io sprint st s).result
      = .ok (beeBucketSyncSessionSprint0 hashOf io sprint st s) := rfl

/-! ## 釣り合い -/

theorem balanced_beeDbGet {malloc : Option ReplyFromBeeToPony2} :
    (OnLock.beeDbGet node buckets malloc ctx).Balanced := by
  unfold OnLock.beeDbGet
  split
  · exact balanced_pure _
  · cases malloc with
    | none => exact balanced_pure _
    | some mem =>
      refine moves_findAndLock_bind_iff.mpr ?_
      cases rangeMapFindAndLock node.maps ctx.mapName (node.sha256 ctx.key) with
      | none => exact balanced_pure _
      | some p =>
        -- 結果を調べる前に放す
        refine moves_release_bind.mpr ?_
        cases beeDbGetLocal node.maps buckets ctx.key ctx.header.resultBufSize.toNat
            (rangeNodes node.maps (some p)) with
        | none => exact balanced_pure _
        | some r =>
          simp only []
          split
          · exact balanced_pure _
          · exact balanced_pure _

theorem balanced_beeDbWrite {io : WriteIo}
    {writeLocal : (Nat → Bool) → List Nat → Buckets → Int × Buckets} {op : Int} :
    (OnLock.beeDbWrite node io writeLocal op buckets ctx needSync).Balanced := by
  refine moves_findAndLock_bind_iff.mpr ?_
  cases rangeMapFindAndLock node.maps ctx.mapName (node.sha256 ctx.key) with
  | none => exact balanced_pure _
  | some p =>
    simp only []
    split
    · exact moves_release_pure _
    · split
      · exact moves_release_pure _
      · exact moves_release_pure _

theorem balanced_beeDbStartMergeSprint {timeout : Bool} {malloc ok : Nat → Bool}
    {header0 : HeaderFromPonyToBee} {stream : List UInt8} :
    (OnLock.beeDbStartMergeSprint timeout malloc ok st header0 stream).Balanced :=
  balanced_of_acquire (moves_lift_release _)

theorem balanced_beeOpenDiskBucket {io : OpenIo} {p : Nat} {bucket : BeeBucket} :
    (OnLock.beeOpenDiskBucket io st p bucket idx).Balanced := by
  apply balanced_of_acquire
  cases st.rbFind bucket with
  | none =>
    cases io.kcdb with
    | none => exact moves_release_pure _
    | some kcdb => exact moves_release_pure _
  | some q =>
    simp only []
    split
    · exact moves_release_pure _
    · cases io.kcdb with
      | none => exact moves_release_pure _
      | some kcdb => exact moves_release_pure _

theorem balanced_beeShiftMemBucket {io : ShiftIo} :
    (OnLock.beeShiftMemBucket io st rangeMap hash).Balanced := by
  unfold OnLock.beeShiftMemBucket
  split
  · exact balanced_pure _
  · cases st.malloc io.malloc with
    | none => exact balanced_pure _
    | some a =>
      simp only []
      split
      · exact balanced_pure _
      · split
        · exact balanced_pure _
        · apply balanced_of_acquire
          split
          · exact moves_release_pure _
          · exact moves_release_pure _

theorem balanced_beeBucketSetOffline {rotate : SearchTree Nat → SearchTree Nat} {ip : Nat}
    {port idx : Int} :
    (OnLock.beeBucketSetOffline rotate ip port st rangeMap hash idx).Balanced := by
  unfold OnLock.beeBucketSetOffline
  split
  · exact balanced_pure _
  · split
    · exact balanced_pure _
    · cases idxOfInt idx with
      | none => exact balanced_pure _
      | some idx =>
        apply balanced_of_acquire
        cases st.rbFind { rangeMapName := rangeMap, hashStr := hash, ip, port } with
        | none => exact moves_release_pure _
        | some p =>
          simp only []
          split
          · exact moves_release_pure _
          · exact moves_release_pure _

theorem balanced_beeCloseAllBuckets {rotate : Nat → SearchTree Nat → SearchTree Nat} :
    (OnLock.beeCloseAllBuckets rotate st).Balanced :=
  balanced_of_acquire (moves_release_pure _)

theorem balanced_beeBucketStartSyncSession {cursor : Option (List (List UInt8 × List UInt8))} :
    (OnLock.beeBucketStartSyncSession sprint cursor st s).Balanced := by
  apply balanced_of_acquire
  cases st.rbFind (s.searchKey sprint) with
  | none => exact moves_release_pure _
  | some p =>
    simp only []
    split
    · exact moves_release_pure _
    · cases cursor with
      | none => exact moves_release_pure _
      | some cursor => exact moves_release_pure _

theorem balanced_beeBucketSyncSessionSprint {hashOf : List UInt8 → HashT}
    {io : Nat → Nat → TargetIo} :
    (OnLock.beeBucketSyncSessionSprint hashOf io sprint st s).Balanced :=
  balanced_of_acquire (moves_release_pure _)

end

end Esq
