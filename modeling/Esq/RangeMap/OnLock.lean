import Esq.Infra.LockTrace
import Esq.RangeMap.Dump

/-!
# range map の rwlock

`src/range-map.c` の関数を、`range_map_rwlock` を取る所と放す所を入れて書き直したもの。

関数の名前は元のままで、`OnLock` の中に置く。結果は lock の無い方の定義と一致する（`result_…`）。
どの関数も取ったものを放して終わる。`range_map_find_and_lock` だけは、NULL でない結果を返すとき
読む側の lock を持ったまま終わる。
-/

namespace Esq

open Infra Infra.Locking

namespace OnLock

abbrev RangeLocked := Locking Fault

abbrev rangeMapRlock : RangeLocked Unit := acquire .read

abbrev rangeMapWlock : RangeLocked Unit := acquire .write

abbrev rangeMapUnlock : RangeLocked Unit := release

/-! ## map と node の出し入れ -/

def rangeMapNew (st : RangeMaps) (name : CStr) : RangeLocked (Option String × RangeMaps) :=
  match rangeMapNameCheck name with
  | some errs => pure (some errs, st)
  | none => do
    rangeMapWlock
    match rangeMapFindByName st name with
    | some _ => do
      rangeMapUnlock
      pure (some "range map already exist", st)
    | none =>
      match (List.finRange 10).find? fun i => (st.slot i).name = .empty with
      | none => do
        rangeMapUnlock
        pure (some "too many range maps", st)
      | some i => do
        let st := st.setSlot i fun m => { m with name := name }
        rangeMapUnlock
        pure (none, st)

def rangeMapAddNode (env : Env) (oracle : Option Nat) (st : RangeMaps) (mapName ipStr : CStr)
    (port : Int) (flags : BitVec 32) (hashString : CStr) :
    RangeLocked (Option String × RangeMaps) :=
  match translateMkcParams ipStr hashString with
  | .error errs => pure (some errs, st)
  | .ok params => do
    rangeMapWlock
    match rangeMapFindByName st mapName with
    | none => do
      rangeMapUnlock
      pure (some "range map not exist", st)
    | some i =>
      match rangeMapFindNode st i params.ip port params.hash with
      | some _ => do
        rangeMapUnlock
        pure (some "range map node already exist", st)
      | none =>
        match st.malloc oracle with
        | none => do
          rangeMapUnlock
          pure (some "out of memory", st)
        | some p => do
          let st := st.joinAllList i p
            (rangeMapNewNode env mapName ipStr hashString port flags params)
          rangeMapUnlock
          pure (none, st)

def rangeMapDelNode (st : RangeMaps) (mapName ipStr : CStr) (port : Int) (hashString : CStr) :
    RangeLocked (Option String × RangeMaps) :=
  match translateMkcParams ipStr hashString with
  | .error errs => pure (some errs, st)
  | .ok params => do
    rangeMapWlock
    match rangeMapFindByName st mapName with
    | none => do
      rangeMapUnlock
      pure (some "range map not exist", st)
    | some i =>
      match rangeMapFindNode st i params.ip port params.hash with
      | none => do
        rangeMapUnlock
        pure (some "range node not exist", st)
      | some p => do
        let st := rangeMapLoad (rangeMapClean (st.markDelete p) i) i
        rangeMapUnlock
        pure (none, st)

def rangeMapDelAllNode (st : RangeMaps) (mapName : CStr) :
    RangeLocked (Option String × RangeMaps) := do
  rangeMapWlock
  match rangeMapFindByName st mapName with
  | none => do
    rangeMapUnlock
    pure (some "range map not exist", st)
  | some i => do
    let st := rangeMapLoad (rangeMapClean ((st.allNodes i).foldl RangeMaps.markDelete st) i) i
    rangeMapUnlock
    pure (none, st)

def rangeMapFlush (st : RangeMaps) (name : CStr) : RangeLocked (Option String × RangeMaps) := do
  rangeMapWlock
  match rangeMapFindByName st name with
  | none => do
    rangeMapUnlock
    pure (some "range map not found", st)
  | some i => do
    let st := rangeMapLoad (rangeMapClean st i) i
    rangeMapUnlock
    pure (none, st)

def esqRangeMapNotifySelfPortSetup (env : Env) (st : RangeMaps) : RangeLocked RangeMaps := do
  rangeMapWlock
  let st := Esq.esqRangeMapNotifySelfPortSetup env st
  rangeMapUnlock
  pure st

/-! ## 引く -/

/-- `range_map_find_and_lock`。見つかれば lock を放さない。 -/
def rangeMapFindAndLock (st : RangeMaps) (mapName : CStr) (hash : HashT) :
    RangeLocked (Option Nat) := do
  rangeMapRlock
  match rangeMapFindByName st mapName with
  | none => do
    rangeMapUnlock
    pure none
  | some i =>
    match search (rbFind st i) hash.buf (st.slot i).longest with
    | some p => pure (some p)
    | none => do
      rangeMapUnlock
      pure none

/-- `range_map_get_addresses`。`-1` は `none` で表す。 -/
def rangeMapGetAddresses (st : RangeMaps) (mapName : CStr) (hash : HashT)
    (maxAddresses : Int) : RangeLocked (Option (List SockaddrIn)) := do
  match ← rangeMapFindAndLock st mapName hash with
  | none => pure (some [])
  | some n => do
    let r ← lift (rangeMapGetAddressesLoop st maxAddresses st.mallocs (some n) [])
    rangeMapUnlock
    pure r

def rangeMapGetMainAddress (maps : RangeMaps) (mapName : CStr) (hash : HashT) :
    RangeLocked (Int × Option SockaddrIn) := do
  match ← rangeMapFindAndLock maps mapName hash with
  | none => pure (0, none)
  | some n =>
    match (rangeNodes maps (some n)).find? fun n => hasFlag (maps.node n).flags rmNodeMain with
    | some n => do
      rangeMapUnlock
      pure (0, some (maps.node n).address)
    | none => do
      rangeMapUnlock
      pure (-1, none)

/-! ## 文字にする -/

def rangeMapDumpNode (st : Bee) (mapName ipStr : CStr) (port : Int) (hashString : CStr)
    (buf : List UInt8) (buflen : Nat) : RangeLocked (Option String × Int × List UInt8) :=
  match translateMkcParams ipStr hashString with
  | .error errs => pure (some errs, buflen, buf)
  | .ok params => do
    rangeMapRlock
    match rangeMapFindByName st.maps mapName with
    | none => do
      rangeMapUnlock
      pure (some "range map not exist", buflen, buf)
    | some i =>
      match rangeMapFindNode st.maps i params.ip port params.hash with
      | none => do
        rangeMapUnlock
        pure (some "range map node not exist", buflen, buf)
      | some p => do
        let (r, buf) ← lift (rangeMapDumpNodeToBuffer st 0 buflen buf p)
        rangeMapUnlock
        if r ≤ 0 then pure (some "node info buffer too small", buflen, buf)
        else pure (none, r, buf)

def rangeMapDumpToBuffer (st : Bee) (name : CStr) (buf : List UInt8) (buflen : Nat) :
    RangeLocked (Int × List UInt8) := do
  rangeMapRlock
  let buf := splice buf 0 [0]
  match rangeMapFindByName st.maps name with
  | none => do
    rangeMapUnlock
    pure (snprintf buf 0 buflen (ascii "range not found\n"))
  | some i => do
    let r ← lift (dumpMapLoop st buflen true 0 buf (rangeMapForeach (st.maps.slot i)))
    rangeMapUnlock
    pure r

end OnLock

/-! ## lock の無い定義との一致 -/

section

variable {st : RangeMaps} {bee : Bee} {env : Env} {name ipStr hashString : CStr} {hash : HashT}
  {port maxAddresses : Int} {buf : List UInt8} {buflen : Nat}

theorem result_rangeMapNew : (OnLock.rangeMapNew st name).result = .ok (rangeMapNew st name) := by
  unfold OnLock.rangeMapNew rangeMapNew
  cases rangeMapNameCheck name with
  | some errs => rfl
  | none =>
    cases rangeMapFindByName st name with
    | some i => rfl
    | none =>
      cases (List.finRange 10).find? fun i => (st.slot i).name = .empty with
      | none => rfl
      | some i => rfl

theorem result_rangeMapAddNode {oracle : Option Nat} {flags : BitVec 32} :
    (OnLock.rangeMapAddNode env oracle st name ipStr port flags hashString).result
      = .ok (rangeMapAddNode env oracle st name ipStr port flags hashString) := by
  unfold OnLock.rangeMapAddNode rangeMapAddNode
  cases translateMkcParams ipStr hashString with
  | error errs => rfl
  | ok params =>
    cases rangeMapFindByName st name with
    | none => rfl
    | some i =>
      simp only []
      cases rangeMapFindNode st i params.ip port params.hash with
      | some p => rfl
      | none =>
        cases st.malloc oracle with
        | none => rfl
        | some p => rfl

theorem result_rangeMapDelNode :
    (OnLock.rangeMapDelNode st name ipStr port hashString).result
      = .ok (rangeMapDelNode st name ipStr port hashString) := by
  unfold OnLock.rangeMapDelNode rangeMapDelNode
  cases translateMkcParams ipStr hashString with
  | error errs => rfl
  | ok params =>
    cases rangeMapFindByName st name with
    | none => rfl
    | some i =>
      simp only []
      cases rangeMapFindNode st i params.ip port params.hash with
      | none => rfl
      | some p => rfl

theorem result_rangeMapDelAllNode :
    (OnLock.rangeMapDelAllNode st name).result = .ok (rangeMapDelAllNode st name) := by
  unfold OnLock.rangeMapDelAllNode rangeMapDelAllNode
  cases rangeMapFindByName st name with
  | none => rfl
  | some i => rfl

theorem result_rangeMapFlush :
    (OnLock.rangeMapFlush st name).result = .ok (rangeMapFlush st name) := by
  unfold OnLock.rangeMapFlush rangeMapFlush
  cases rangeMapFindByName st name with
  | none => rfl
  | some i => rfl

theorem result_esqRangeMapNotifySelfPortSetup :
    (OnLock.esqRangeMapNotifySelfPortSetup env st).result
      = .ok (esqRangeMapNotifySelfPortSetup env st) := rfl

theorem result_rangeMapFindAndLock :
    (OnLock.rangeMapFindAndLock st name hash).result = .ok (rangeMapFindAndLock st name hash) := by
  unfold OnLock.rangeMapFindAndLock rangeMapFindAndLock
  cases rangeMapFindByName st name with
  | none => rfl
  | some i =>
    simp only []
    cases search (rbFind st i) hash.buf (st.slot i).longest with
    | none => rfl
    | some p => rfl

theorem result_rangeMapGetAddresses :
    (OnLock.rangeMapGetAddresses st name hash maxAddresses).result
      = rangeMapGetAddresses st name hash maxAddresses := by
  unfold OnLock.rangeMapGetAddresses rangeMapGetAddresses
  rw [result_bind, result_rangeMapFindAndLock, ok_bind]
  cases rangeMapFindAndLock st name hash with
  | none => rfl
  | some n => simp

theorem result_rangeMapGetMainAddress :
    (OnLock.rangeMapGetMainAddress st name hash).result
      = .ok (rangeMapGetMainAddress st name hash) := by
  unfold OnLock.rangeMapGetMainAddress rangeMapGetMainAddress
  rw [result_bind, result_rangeMapFindAndLock, ok_bind]
  cases rangeMapFindAndLock st name hash with
  | none => rfl
  | some n =>
    simp only []
    cases (rangeNodes st (some n)).find? fun n => hasFlag (st.node n).flags rmNodeMain with
    | some n => rfl
    | none => rfl

theorem result_rangeMapDumpNode :
    (OnLock.rangeMapDumpNode bee name ipStr port hashString buf buflen).result
      = rangeMapDumpNode bee name ipStr port hashString buf buflen := by
  unfold OnLock.rangeMapDumpNode rangeMapDumpNode
  cases translateMkcParams ipStr hashString with
  | error errs => rfl
  | ok params =>
    cases rangeMapFindByName bee.maps name with
    | none => rfl
    | some i =>
      simp only []
      cases rangeMapFindNode bee.maps i params.ip port params.hash with
      | none => rfl
      | some p =>
        simp only [result_bind, result_acquire, result_lift, result_release, ok_bind]
        congr
        funext w
        split
        · rfl
        · rfl

theorem result_rangeMapDumpToBuffer :
    (OnLock.rangeMapDumpToBuffer bee name buf buflen).result
      = rangeMapDumpToBuffer bee name buf buflen := by
  unfold OnLock.rangeMapDumpToBuffer rangeMapDumpToBuffer
  cases rangeMapFindByName bee.maps name with
  | none => rfl
  | some i => simp

/-! ## 釣り合い -/

theorem balanced_of_acquire {α : Type} {mode : RwMode} {f : Unit → OnLock.RangeLocked α}
    (h : (f ()).Moves (some mode) fun _ => none) : (acquire mode >>= f).Balanced :=
  moves_acquire_bind.mpr h

theorem moves_release_pure {α : Type} {mode : RwMode} (a : α) :
    (OnLock.rangeMapUnlock >>= fun _ => pure a : OnLock.RangeLocked α).Moves (some mode)
      fun _ => none :=
  moves_release_bind.mpr (moves_pure.mpr rfl)

theorem moves_lift_release {α : Type} {mode : RwMode} (x : Except Fault α) :
    (lift x >>= fun a => OnLock.rangeMapUnlock >>= fun _ => pure a : OnLock.RangeLocked α).Moves
      (some mode) fun _ => none :=
  moves_lift_bind.mpr fun a _ => moves_release_pure a

theorem balanced_pure {α : Type} (a : α) : (pure a : OnLock.RangeLocked α).Balanced :=
  moves_pure.mpr rfl

theorem balanced_rangeMapNew : (OnLock.rangeMapNew st name).Balanced := by
  unfold OnLock.rangeMapNew
  cases rangeMapNameCheck name with
  | some errs => exact balanced_pure _
  | none =>
    apply balanced_of_acquire
    cases rangeMapFindByName st name with
    | some i => exact moves_release_pure _
    | none =>
      cases (List.finRange 10).find? fun i => (st.slot i).name = .empty with
      | none => exact moves_release_pure _
      | some i => exact moves_release_pure _

theorem balanced_rangeMapAddNode {oracle : Option Nat} {flags : BitVec 32} :
    (OnLock.rangeMapAddNode env oracle st name ipStr port flags hashString).Balanced := by
  unfold OnLock.rangeMapAddNode
  cases translateMkcParams ipStr hashString with
  | error errs => exact balanced_pure _
  | ok params =>
    apply balanced_of_acquire
    cases rangeMapFindByName st name with
    | none => exact moves_release_pure _
    | some i =>
      simp only []
      cases rangeMapFindNode st i params.ip port params.hash with
      | some p => exact moves_release_pure _
      | none =>
        cases st.malloc oracle with
        | none => exact moves_release_pure _
        | some p => exact moves_release_pure _

theorem balanced_rangeMapDelNode :
    (OnLock.rangeMapDelNode st name ipStr port hashString).Balanced := by
  unfold OnLock.rangeMapDelNode
  cases translateMkcParams ipStr hashString with
  | error errs => exact balanced_pure _
  | ok params =>
    apply balanced_of_acquire
    cases rangeMapFindByName st name with
    | none => exact moves_release_pure _
    | some i =>
      simp only []
      cases rangeMapFindNode st i params.ip port params.hash with
      | none => exact moves_release_pure _
      | some p => exact moves_release_pure _

theorem balanced_rangeMapDelAllNode : (OnLock.rangeMapDelAllNode st name).Balanced := by
  apply balanced_of_acquire
  cases rangeMapFindByName st name with
  | none => exact moves_release_pure _
  | some i => exact moves_release_pure _

theorem balanced_rangeMapFlush : (OnLock.rangeMapFlush st name).Balanced := by
  apply balanced_of_acquire
  cases rangeMapFindByName st name with
  | none => exact moves_release_pure _
  | some i => exact moves_release_pure _

theorem balanced_esqRangeMapNotifySelfPortSetup :
    (OnLock.esqRangeMapNotifySelfPortSetup env st).Balanced :=
  balanced_of_acquire (moves_release_pure _)

/-- **`range_map_find_and_lock` は、NULL でない結果を返すときに限り、読む側の lock を持って終わる。** -/
theorem moves_rangeMapFindAndLock :
    (OnLock.rangeMapFindAndLock st name hash).Moves none
      fun p => if p.isSome then some .read else none := by
  unfold OnLock.rangeMapFindAndLock
  rw [moves_acquire_bind]
  cases rangeMapFindByName st name with
  | none => simp
  | some i =>
    simp only []
    cases search (rbFind st i) hash.buf (st.slot i).longest with
    | none => simp
    | some p => simp

theorem moves_findAndLock_bind_iff {α : Type} {f : Option Nat → OnLock.RangeLocked α}
    {Q : α → Option RwMode} :
    (OnLock.rangeMapFindAndLock st name hash >>= f).Moves none Q ↔
      (f (rangeMapFindAndLock st name hash)).Moves
        (if (rangeMapFindAndLock st name hash).isSome then some .read else none) Q := by
  rw [moves_bind_iff moves_rangeMapFindAndLock, result_rangeMapFindAndLock]
  constructor
  · intro h
    exact h _ rfl
  · rintro h p ⟨⟩
    exact h

theorem balanced_rangeMapGetAddresses :
    (OnLock.rangeMapGetAddresses st name hash maxAddresses).Balanced := by
  unfold OnLock.rangeMapGetAddresses Infra.Locking.Balanced
  rw [moves_findAndLock_bind_iff]
  cases rangeMapFindAndLock st name hash with
  | none => exact balanced_pure _
  | some n => exact moves_lift_release _

theorem balanced_rangeMapGetMainAddress :
    (OnLock.rangeMapGetMainAddress st name hash).Balanced := by
  unfold OnLock.rangeMapGetMainAddress Infra.Locking.Balanced
  rw [moves_findAndLock_bind_iff]
  cases rangeMapFindAndLock st name hash with
  | none => exact balanced_pure _
  | some n =>
    simp only []
    cases (rangeNodes st (some n)).find? fun n => hasFlag (st.node n).flags rmNodeMain with
    | some n => exact moves_release_pure _
    | none => exact moves_release_pure _

theorem balanced_rangeMapDumpNode :
    (OnLock.rangeMapDumpNode bee name ipStr port hashString buf buflen).Balanced := by
  unfold OnLock.rangeMapDumpNode
  cases translateMkcParams ipStr hashString with
  | error errs => exact balanced_pure _
  | ok params =>
    apply balanced_of_acquire
    cases rangeMapFindByName bee.maps name with
    | none => exact moves_release_pure _
    | some i =>
      simp only []
      cases rangeMapFindNode bee.maps i params.ip port params.hash with
      | none => exact moves_release_pure _
      | some p =>
        simp only [moves_lift_bind, moves_release_bind]
        intro w _
        split
        · exact balanced_pure _
        · exact balanced_pure _

theorem balanced_rangeMapDumpToBuffer :
    (OnLock.rangeMapDumpToBuffer bee name buf buflen).Balanced := by
  apply balanced_of_acquire
  cases rangeMapFindByName bee.maps name with
  | none => exact moves_release_pure _
  | some i => exact moves_lift_release _

end

end Esq
