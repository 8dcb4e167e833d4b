import Esq.Bee.OnLock

/-!
# range map の lock の釣り合い

range map の lock を取る操作を並べ、どれがいつ釣り合うかを言う。

`internal/range_map.h` は `range_map_find_and_lock` について "no need to unlock if return NULL" と
述べる。`modules/mt/range-map.c` の `range_map_test_drive2` だけがこれに反し、あるはずの hash が
見つからないときに、持っていない lock を放す。
-/

namespace Esq

open Infra Infra.Locking

/-! ## `range_map_test_drive2` -/

structure RmTestT2 where
  hashString : CStr
  hasHash : Bool
  listString : CStr

def kcdbName : CStr := ⟨[107, 99, 100, 98], by decide⟩

theorem length_overwrite (hash : HashT) {bin : List UInt8} (h : bin.length ≤ hashValueLength) :
    (bin ++ hash.buf.drop bin.length).length = hashValueLength := by
  have hlen : hash.buf.length = hashValueLength := hash.property
  rw [List.length_append, List.length_drop, hlen]
  omega

/-- `hash_str_2_bin` で `hash.buf` の先頭に書く。長すぎる文字列は `hash` の外に書く。 -/
def RmTestT2.load (t : RmTestT2) (hash : HashT) : Except Fault (Option HashT) :=
  match hashStr2Bin t.hashString.bytes with
  | none => .ok none
  | some bin =>
    if h : bin.length ≤ hashValueLength then
      .ok (some ⟨bin ++ hash.buf.drop bin.length, length_overwrite hash h⟩)
    else .error .segv

def RmTestT2.shows (t : RmTestT2) (dumpbuf : List UInt8) : Bool :=
  dumpbuf.takeWhile (· ≠ 0) = t.listString.bytes

def dumpbufSize : Nat := 4096

/-- `range_map_test_drive2` の loop。`hash` と `dumpbuf` は、初期化されていない局所変数から始まる。 -/
def OnLock.rangeMapTestDrive2 (st : Bee) : HashT → List UInt8 → List RmTestT2 → RangeLocked Int
  | _, _, [] => pure 0
  | hash, dumpbuf, t :: ts => do
    match ← lift (t.load hash) with
    | none => pure (-1)
    | some hash =>
      match ← rangeMapFindAndLock st.maps kcdbName hash with
      | none =>
        if t.hasHash then do
          rangeMapUnlock
          pure (-1)
        else rangeMapTestDrive2 st hash dumpbuf ts
      | some list => do
        let (_, dumpbuf) ← lift (rangeMapDumpListToBuffer st 0 dumpbufSize dumpbuf list)
        rangeMapUnlock
        if t.shows dumpbuf then rangeMapTestDrive2 st hash dumpbuf ts else pure (-1)

/--
`range_map_test_drive2` が、`has_hash` なのに chain の無い項目に着く。その前の項目では、chain が無いか、
chain を書いた文字列が表の通りである。
-/
inductive ReachesMiss (st : Bee) : HashT → List UInt8 → List RmTestT2 → Prop where
  | here {hash hash' : HashT} {dumpbuf : List UInt8} {t : RmTestT2} {ts : List RmTestT2}
      (hload : t.load hash = .ok (some hash')) (hhas : t.hasHash)
      (hfind : rangeMapFindAndLock st.maps kcdbName hash' = none) :
      ReachesMiss st hash dumpbuf (t :: ts)
  | absent {hash hash' : HashT} {dumpbuf : List UInt8} {t : RmTestT2} {ts : List RmTestT2}
      (hload : t.load hash = .ok (some hash'))
      (hfind : rangeMapFindAndLock st.maps kcdbName hash' = none)
      (hrest : ReachesMiss st hash' dumpbuf ts) : ReachesMiss st hash dumpbuf (t :: ts)
  | shown {hash hash' : HashT} {dumpbuf dumpbuf' : List UInt8} {t : RmTestT2}
      {ts : List RmTestT2} {list : Nat} {r : Int} (hload : t.load hash = .ok (some hash'))
      (hfind : rangeMapFindAndLock st.maps kcdbName hash' = some list)
      (hdump : rangeMapDumpListToBuffer st 0 dumpbufSize dumpbuf list = .ok (r, dumpbuf'))
      (hshows : t.shows dumpbuf') (hrest : ReachesMiss st hash' dumpbuf' ts) :
      ReachesMiss st hash dumpbuf (t :: ts)

section

variable {st : Bee} {t : RmTestT2} {ts : List RmTestT2} {hash hash' : HashT}
  {dumpbuf : List UInt8}

theorem not_reachesMiss_of_load {loaded : Except Fault (Option HashT)}
    (hload : t.load hash = loaded) (h : ∀ hash', loaded ≠ .ok (some hash')) :
    ¬ ReachesMiss st hash dumpbuf (t :: ts) := by
  subst hload
  intro hmiss
  cases hmiss with
  | here hload => exact h _ hload
  | absent hload => exact h _ hload
  | shown hload => exact h _ hload

theorem reachesMiss_of_none (hload : t.load hash = .ok (some hash'))
    (hfind : rangeMapFindAndLock st.maps kcdbName hash' = none) :
    ReachesMiss st hash dumpbuf (t :: ts) ↔ t.hasHash ∨ ReachesMiss st hash' dumpbuf ts := by
  constructor
  · intro hmiss
    cases hmiss with
    | here _ hhas => exact Or.inl hhas
    | absent hload' _ hrest =>
      cases hload.symm.trans hload'
      exact Or.inr hrest
    | shown hload' hfind' =>
      cases hload.symm.trans hload'
      rw [hfind] at hfind'
      cases hfind'
  · rintro (hhas | hrest)
    · exact .here hload hhas hfind
    · exact .absent hload hfind hrest

theorem reachesMiss_of_some {list : Nat} (hload : t.load hash = .ok (some hash'))
    (hfind : rangeMapFindAndLock st.maps kcdbName hash' = some list) :
    ReachesMiss st hash dumpbuf (t :: ts) ↔ ∃ r dumpbuf',
      rangeMapDumpListToBuffer st 0 dumpbufSize dumpbuf list = .ok (r, dumpbuf') ∧
        t.shows dumpbuf' ∧ ReachesMiss st hash' dumpbuf' ts := by
  constructor
  · intro hmiss
    cases hmiss with
    | here hload' _ hfind' =>
      cases hload.symm.trans hload'
      rw [hfind] at hfind'
      cases hfind'
    | absent hload' hfind' =>
      cases hload.symm.trans hload'
      rw [hfind] at hfind'
      cases hfind'
    | shown hload' hfind' hdump hshows hrest =>
      cases hload.symm.trans hload'
      cases hfind.symm.trans hfind'
      exact ⟨_, _, hdump, hshows, hrest⟩
  · rintro ⟨r, dumpbuf', hdump, hshows, hrest⟩
    exact .shown hload hfind hdump hshows hrest

end

/-- **`range_map_test_drive2` は、chain の無い `has_hash` の項目に着かないとき、そのときに限り釣り合う。** -/
theorem balanced_rangeMapTestDrive2_iff {st : Bee} : ∀ (hash : HashT) (dumpbuf : List UInt8)
    (ts : List RmTestT2), (OnLock.rangeMapTestDrive2 st hash dumpbuf ts).Balanced ↔
      ¬ ReachesMiss st hash dumpbuf ts
  | hash, dumpbuf, [] => by
    constructor
    · intro _ h
      cases h
    · intro _
      exact balanced_pure _
  | hash, dumpbuf, t :: ts => by
    unfold OnLock.rangeMapTestDrive2 Infra.Locking.Balanced
    rw [moves_lift_bind]
    cases hload : t.load hash with
    | error e => exact iff_of_true nofun (not_reachesMiss_of_load hload nofun)
    | ok loaded =>
      cases loaded with
      | none =>
        refine iff_of_true ?_ (not_reachesMiss_of_load hload nofun)
        rintro a ⟨⟩
        exact balanced_pure _
      | some hash' =>
        simp only [Except.ok.injEq, forall_eq']
        rw [moves_findAndLock_bind_iff]
        cases hfind : rangeMapFindAndLock st.maps kcdbName hash' with
        | none =>
          rw [reachesMiss_of_none hload hfind]
          by_cases hhas : t.hasHash
          · -- `range_map_find_and_lock` がもう放している
            simp [hhas]
          · have ih : (OnLock.rangeMapTestDrive2 st hash' dumpbuf ts).Moves none (fun _ => none) ↔ _ :=
              balanced_rangeMapTestDrive2_iff hash' dumpbuf ts
            simp [hhas, ih]
        | some list =>
          rw [reachesMiss_of_some hload hfind]
          simp only [Option.isSome_some, if_true, moves_lift_bind, moves_release_bind]
          constructor
          · rintro h ⟨r, dumpbuf', hdump, hshows, hrest⟩
            have hnext := h _ hdump
            rw [if_pos hshows] at hnext
            exact (balanced_rangeMapTestDrive2_iff hash' dumpbuf' ts).mp hnext hrest
          · intro h w hdump
            by_cases hshows : t.shows w.2
            · rw [if_pos hshows]
              refine (balanced_rangeMapTestDrive2_iff hash' w.2 ts).mpr fun hrest => ?_
              exact h ⟨w.1, w.2, hdump, hshows, hrest⟩
            · rw [if_neg hshows]
              exact balanced_pure _

/-! ## 操作 -/

inductive RmOp where
  | new (name : CStr)
  | addNode (host : Host) (oracle : Option Nat) (mapName ipStr : CStr) (port : Int32)
      (flags : BitVec 32) (hashString : CStr)
  | delNode (mapName ipStr : CStr) (port : Int32) (hashString : CStr)
  | delAllNode (mapName : CStr)
  | flush (name : CStr)
  | dumpNode (mapName ipStr : CStr) (port : Int32) (hashString : CStr) (buf : List UInt8)
      (buflen : Nat)
  | dump (name : CStr) (buf : List UInt8) (buflen : Nat)
  | getAddresses (mapName : CStr) (hash : HashT) (maxAddresses : Int32)
  | getMainAddress (mapName : CStr) (hash : HashT)
  | notifySelfPortSetup (host : Host)
  | testDrive2 (hash : HashT) (dumpbuf : List UInt8) (t : List RmTestT2)
  | dbGet (malloc : Option ReplyFromBeeToPony2) (ctx : BeeServiceCtx)
  | dbSet (io : WriteIo) (ctx : BeeServiceCtx) (needSync : Bool)
  | dbDel (io : WriteIo) (ctx : BeeServiceCtx) (needSync : Bool)
  | startMergeSprint (timeout : Bool) (malloc ok : Nat → Bool) (header0 : HeaderFromPonyToBee)
      (stream : List UInt8)
  | openDiskBucket (io : OpenIo) (p : Nat) (bucket : BeeBucket) (idx : Fin 2)
  | shiftMemBucket (io : ShiftIo) (rangeMap hash : List UInt8)
  | setOffline (rotate : SearchTree Nat → SearchTree Nat) (ip : Nat) (port : Int32)
      (rangeMap hash : List UInt8) (idx : Int32)
  | closeAllBuckets (rotate : Nat → SearchTree Nat → SearchTree Nat)
  | startSyncSession (sprint : SprintIo) (cursor : Option (List (List UInt8 × List UInt8)))
      (s : SyncSession)
  | syncSessionSprint (io : Nat → Nat → TargetIo) (sprint : SprintIo) (s : SyncSession)

def rmEvents (sha256 : List UInt8 → HashT) (st : Bee) : RmOp → OnLock.RangeLocked Unit
  | .new name => (OnLock.rangeMapNew st.maps name).void
  | .addNode host oracle mapName ipStr port flags hashString =>
    (OnLock.rangeMapAddNode (st.env host) oracle st.maps mapName ipStr port.toInt flags
      hashString).void
  | .delNode mapName ipStr port hashString =>
    (OnLock.rangeMapDelNode st.maps mapName ipStr port.toInt hashString).void
  | .delAllNode mapName => (OnLock.rangeMapDelAllNode st.maps mapName).void
  | .flush name => (OnLock.rangeMapFlush st.maps name).void
  | .dumpNode mapName ipStr port hashString buf buflen =>
    (OnLock.rangeMapDumpNode st mapName ipStr port.toInt hashString buf buflen).void
  | .dump name buf buflen => (OnLock.rangeMapDumpToBuffer st name buf buflen).void
  | .getAddresses mapName hash maxAddresses =>
    (OnLock.rangeMapGetAddresses st.maps mapName hash maxAddresses.toInt).void
  | .getMainAddress mapName hash => (OnLock.rangeMapGetMainAddress st.maps mapName hash).void
  | .notifySelfPortSetup host =>
    (OnLock.esqRangeMapNotifySelfPortSetup (st.env host) st.maps).void
  | .testDrive2 hash dumpbuf t => (OnLock.rangeMapTestDrive2 st hash dumpbuf t).void
  | .dbGet malloc ctx => (OnLock.beeDbGet ⟨sha256, st.maps⟩ st.bucket malloc ctx).void
  | .dbSet io ctx needSync => (OnLock.beeDbSet ⟨sha256, st.maps⟩ io st.bucket ctx needSync).void
  | .dbDel io ctx needSync => (OnLock.beeDbDel ⟨sha256, st.maps⟩ io st.bucket ctx needSync).void
  | .startMergeSprint timeout malloc ok header0 stream =>
    (OnLock.beeDbStartMergeSprint timeout malloc ok st header0 stream).void
  | .openDiskBucket io p bucket idx => (OnLock.beeOpenDiskBucket io st p bucket idx).void
  | .shiftMemBucket io rangeMap hash => (OnLock.beeShiftMemBucket io st rangeMap hash).void
  | .setOffline rotate ip port rangeMap hash idx =>
    (OnLock.beeBucketSetOffline rotate ip port.toInt st rangeMap hash idx.toInt).void
  | .closeAllBuckets rotate => (OnLock.beeCloseAllBuckets rotate st).void
  | .startSyncSession sprint cursor s =>
    (OnLock.beeBucketStartSyncSession sprint cursor st s).void
  | .syncSessionSprint io sprint s =>
    (OnLock.beeBucketSyncSessionSprint sha256 io sprint st s).void

/-- 釣り合う条件。`range_map_test_drive2` の他には何も要らない。 -/
def RmOp.FindsAll (st : Bee) : RmOp → Prop
  | .testDrive2 hash dumpbuf t => ¬ ReachesMiss st hash dumpbuf t
  | _ => True

/--
**`range_map_find_and_lock` は NULL でない結果を返すときに限り読む側の lock を持って終わり、どの操作も、
取ったものをちょうど一度ずつ放して終わるのは、条件を満たすとき、そのときに限る。**
-/
theorem range_map_lock_balance (sha256 : List UInt8 → HashT) (st : Bee) :
    (∀ (name : CStr) (hash : HashT), ∃ p,
      (OnLock.rangeMapFindAndLock st.maps name hash).result = .ok p ∧
        heldAfter none (OnLock.rangeMapFindAndLock st.maps name hash).events
          = some (if p.isSome then some .read else none)) ∧
      ∀ op : RmOp, (rmEvents sha256 st op).Balanced ↔ op.FindsAll st := by
  constructor
  · intro name hash
    have hmoves := @moves_rangeMapFindAndLock st.maps name hash
    unfold Moves at hmoves
    rw [result_rangeMapFindAndLock] at hmoves
    exact ⟨_, result_rangeMapFindAndLock, hmoves⟩
  · intro op
    cases op with
    | testDrive2 hash dumpbuf t =>
      exact balanced_void_iff.trans (balanced_rangeMapTestDrive2_iff hash dumpbuf t)
    | new name => exact iff_of_true (balanced_void_iff.mpr balanced_rangeMapNew) trivial
    | addNode => exact iff_of_true (balanced_void_iff.mpr balanced_rangeMapAddNode) trivial
    | delNode => exact iff_of_true (balanced_void_iff.mpr balanced_rangeMapDelNode) trivial
    | delAllNode => exact iff_of_true (balanced_void_iff.mpr balanced_rangeMapDelAllNode) trivial
    | flush => exact iff_of_true (balanced_void_iff.mpr balanced_rangeMapFlush) trivial
    | dumpNode => exact iff_of_true (balanced_void_iff.mpr balanced_rangeMapDumpNode) trivial
    | dump => exact iff_of_true (balanced_void_iff.mpr balanced_rangeMapDumpToBuffer) trivial
    | getAddresses =>
      exact iff_of_true (balanced_void_iff.mpr balanced_rangeMapGetAddresses) trivial
    | getMainAddress =>
      exact iff_of_true (balanced_void_iff.mpr balanced_rangeMapGetMainAddress) trivial
    | notifySelfPortSetup =>
      exact iff_of_true (balanced_void_iff.mpr balanced_esqRangeMapNotifySelfPortSetup) trivial
    | dbGet => exact iff_of_true (balanced_void_iff.mpr balanced_beeDbGet) trivial
    | dbSet => exact iff_of_true (balanced_void_iff.mpr balanced_beeDbWrite) trivial
    | dbDel => exact iff_of_true (balanced_void_iff.mpr balanced_beeDbWrite) trivial
    | startMergeSprint =>
      exact iff_of_true (balanced_void_iff.mpr balanced_beeDbStartMergeSprint) trivial
    | openDiskBucket =>
      exact iff_of_true (balanced_void_iff.mpr balanced_beeOpenDiskBucket) trivial
    | shiftMemBucket =>
      exact iff_of_true (balanced_void_iff.mpr balanced_beeShiftMemBucket) trivial
    | setOffline => exact iff_of_true (balanced_void_iff.mpr balanced_beeBucketSetOffline) trivial
    | closeAllBuckets =>
      exact iff_of_true (balanced_void_iff.mpr balanced_beeCloseAllBuckets) trivial
    | startSyncSession =>
      exact iff_of_true (balanced_void_iff.mpr balanced_beeBucketStartSyncSession) trivial
    | syncSessionSprint =>
      exact iff_of_true (balanced_void_iff.mpr balanced_beeBucketSyncSessionSprint) trivial


/-! ## 見つからない hash -/

def HashT.zero : HashT := ⟨List.replicate hashValueLength 0, rfl⟩

def RmTestT2.t2Head : RmTestT2 where
  hashString := ⟨List.replicate 64 48, by decide⟩
  hasHash := true
  listString := ⟨ascii "127.0.0.1:2001:00x 127.0.0.1:2000:00x 127.0.0.1:2001:x 127.0.0.1:2000:x",
    by decide +kernel⟩

def Bee.emptied : Bee := beeRun .init [.rangeMapNew kcdbName, .delAllNode kcdbName]

/-- chain の無い map で `range_map_test_drive2` を行うと、一度取った lock を二度放す。 -/
theorem range_map_test_drive2_unlocks_twice :
    (rmEvents (fun _ => .zero) .emptied (.testDrive2 .zero [] [.t2Head])).events
        = [.acquire .read, .release, .release] ∧
      ¬ (rmEvents (fun _ => .zero) .emptied (.testDrive2 .zero [] [.t2Head])).Balanced := by
  constructor
  · decide +kernel
  · refine fun h => (balanced_rangeMapTestDrive2_iff _ _ _).mp (balanced_void_iff.mp h) ?_
    exact .here (t := .t2Head) rfl rfl (by decide +kernel)

end Esq
