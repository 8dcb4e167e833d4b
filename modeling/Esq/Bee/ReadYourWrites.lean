import Esq.Bee.Merge
import Esq.RangeMap.Dump

/-!
# 書いた record を読む

`bee/bucket.c` の `bee_bucket_set` と `bee_bucket_del` が成功した後に、`bee_bucket_get` と
`bee_bucket_get2` が返すもの。

`bee_bucket_set` と `bee_bucket_del` は `kcdb[1]` があればそちらに書く。`bee_bucket_get` と
`bee_bucket_get2` は、はじめに `kcdb[0]` を見て、無ければ `kcdb[1]` を見ずに
`ESQ_ERROR_NOTFOUND` を返す。`bee_bucket_get_db_ptr_state` が `"P"` を返す bucket では、書けるのに
読めない。
-/

namespace Esq

variable {b b' : BeeBucket} {key k value : List UInt8} {ok : Bool}

/-! ## 約束 -/

/-- `key` の値として `value` が読める。buffer は `value` が入る大きさである。 -/
structure ReadsValue (b : BeeBucket) (key value : List UInt8) : Prop where
  get : ∀ bufLen, value.length ≤ bufLen → beeBucketGet b key bufLen = some (value, value.length)
  get2 : beeBucketGet2 b key = some value

/-- `key` には record が無いか、`timeval` に収まる record しか無い。 -/
structure ReadsDeleted (b : BeeBucket) (key : List UInt8) : Prop where
  get : ∀ bufLen r, beeBucketGet b key bufLen = some r → r.2 ≤ timevalSize
  get2 : ∀ r, beeBucketGet2 b key = some r → r.length ≤ timevalSize

/-- `key` の record は、どちらの KCDB でも、どちらの関数で読んでも変わっていない。 -/
structure RecordKept (b b' : BeeBucket) (key : List UInt8) : Prop where
  kcdb : ∀ i, (b'.kcdb i).map (fun db => db key) = (b.kcdb i).map (fun db => db key)
  get : ∀ bufLen, beeBucketGet b' key bufLen = beeBucketGet b key bufLen
  get2 : beeBucketGet2 b' key = beeBucketGet2 b key

/--
bucket は `key` に書いたものを返す。`bee_bucket_del` に渡る `value` は `timeval` に収まる。
-/
structure ReadsOwnWrites (b : BeeBucket) (key : List UInt8) : Prop where
  set : ∀ value ok, (beeBucketSet b key value ok).1 = 0 →
    ReadsValue (beeBucketSet b key value ok).2 key value
  del : ∀ value ok, value.length ≤ timevalSize → (beeBucketDel b key value ok).1 = 0 →
    ReadsDeleted (beeBucketDel b key value ok).2 key
  setOthers : ∀ value ok k, k ≠ key → RecordKept b (beeBucketSet b key value ok).2 k
  delOthers : ∀ value ok k, k ≠ key → RecordKept b (beeBucketDel b key value ok).2 k

/-! ## 読めるもの -/

theorem readsValue_iff : ReadsValue b key value ↔ b.record key = some value := by
  constructor
  · intro h
    rw [← beeBucketGet2_eq]
    exact h.get2
  · intro h
    refine ⟨fun n hn => ?_, by rw [beeBucketGet2_eq, h]⟩
    rw [beeBucketGet_eq, h, Option.map_some, List.take_of_length_le hn]

theorem readsDeleted_of_record (h : ∀ v, b.record key = some v → v.length ≤ timevalSize) :
    ReadsDeleted b key where
  get n r hr := by
    rw [beeBucketGet_eq] at hr
    obtain ⟨v, hv, rfl⟩ := Option.map_eq_some_iff.mp hr
    exact h v hv
  get2 r hr := h r (by rw [← beeBucketGet2_eq, hr])

theorem recordKept_of_kcdb
    (h : ∀ i, (b'.kcdb i).map (fun db => db k) = (b.kcdb i).map (fun db => db k)) :
    RecordKept b b' k := by
  have hrec : b'.record k = b.record k := by
    have h0 := h 0
    have h1 := h 1
    unfold BeeBucket.record
    cases hb0 : b.kcdb 0 <;> cases hb0' : b'.kcdb 0 <;> simp [hb0, hb0'] at h0 ⊢
    cases hb1 : b.kcdb 1 <;> cases hb1' : b'.kcdb 1 <;> simp [hb1, hb1'] at h1 ⊢
    · exact h0
    · rw [h0, h1]
  exact ⟨h, fun n => by rw [beeBucketGet_eq, beeBucketGet_eq, hrec],
    by rw [beeBucketGet2_eq, beeBucketGet2_eq, hrec]⟩

theorem recordKept_setKcdb {i : Fin 2} {db db' : Kcdb} (hdb : b.kcdb i = some db)
    (hk : db' k = db k) : RecordKept b (b.setKcdb i (some db')) k := by
  refine recordKept_of_kcdb fun j => ?_
  by_cases hj : j = i
  · subst hj
    simp [hdb, hk]
  · rw [BeeBucket.kcdb_setKcdb_of_ne hj]

theorem recordKept_write {write1 write0 : Kcdb → Bool → Bool × Kcdb} (h1 : KcdbWrite write1 key)
    (h0 : KcdbWrite write0 key) (hk : k ≠ key) :
    RecordKept b (beeBucketWrite write1 write0 b ok).2 k := by
  cases hb1 : b.kcdb 1 with
  | some db1 =>
    rw [beeBucketWrite_one hb1]
    exact recordKept_setKcdb hb1 (h1.others hk)
  | none =>
    cases hb0 : b.kcdb 0 with
    | some db0 =>
      rw [beeBucketWrite_zero hb1 hb0]
      exact recordKept_setKcdb hb0 (h0.others hk)
    | none =>
      rw [beeBucketWrite_none hb1 hb0]
      exact recordKept_of_kcdb fun _ => rfl

/-! ## 読めるとき -/

theorem ptrState_eq_patch_iff :
    beeBucketGetDbPtrState b = .ok (ascii "P") ↔ b.kcdb 0 = none ∧ (b.kcdb 1).isSome := by
  unfold beeBucketGetDbPtrState
  cases b.kcdb 0 <;> cases b.kcdb 1 <;> simp [ascii]

theorem beeBucketSet_patch (h : (b.kcdb 1).isSome) : (beeBucketSet b key value true).1 = 0 := by
  obtain ⟨db1, hb1⟩ := Option.isSome_iff_exists.mp h
  unfold beeBucketSet
  rw [beeBucketWrite_one hb1]
  rfl

/--
**bucket に書いたものが読めるのは、`kcdb[1]` だけの bucket でないときに限る。**
`bee_bucket_set` が 0 を返せば `bee_bucket_get` と `bee_bucket_get2` は書いた値を返し、
`bee_bucket_del` が 0 を返せば高々 `timeval` の長さの record しか返らず、どちらも他の key の record
を変えない。
-/
theorem bucket_reads_own_writes_iff (b : BeeBucket) (key : List UInt8) :
    ReadsOwnWrites b key ↔ beeBucketGetDbPtrState b ≠ .ok (ascii "P") := by
  rw [ne_eq, ptrState_eq_patch_iff]
  constructor
  · rintro h ⟨h0, h1⟩
    -- 書けるのに、読む側は `kcdb[0]` が無いところで終わる。
    have hset : (beeBucketSet b key [] true).1 = 0 := beeBucketSet_patch h1
    have hread := readsValue_iff.mp (h.set [] true hset)
    rw [record_beeBucketSet hset, h0] at hread
    cases hread
  · intro hp
    refine ⟨fun value ok hset => ?_, fun value ok hv hdel => ?_,
      fun value ok k hk => recordKept_write kcdbWrite_set kcdbWrite_set hk,
      fun value ok k hk => recordKept_write kcdbWrite_set kcdbWrite_remove hk⟩
    · have h0 : (b.kcdb 0).isSome := by
        by_contra h0
        rw [Option.not_isSome_iff_eq_none] at h0
        cases hb1 : b.kcdb 1 with
        | some db1 => exact hp ⟨h0, by rw [hb1]; rfl⟩
        | none =>
          unfold beeBucketSet at hset
          rw [beeBucketWrite_none hb1 h0] at hset
          exact esqErrorNotfound_ne_zero hset
      exact readsValue_iff.mpr (by rw [record_beeBucketSet hset, if_pos h0])
    · refine readsDeleted_of_record fun v hv' => ?_
      rw [record_beeBucketDel hdel hv']
      exact hv

def BeeBucket.samplePatch : BeeBucket where
  rangeMapName := []
  hashStr := []
  kcdb := fun i => if i = 1 then some Kcdb.empty else none

/-- patch だけの bucket に書いた値は読めない。 -/
theorem patch_only_bucket_loses_write :
    (beeBucketSet .samplePatch [107] [118] true).1 = 0 ∧
      beeBucketGet (beeBucketSet .samplePatch [107] [118] true).2 [107] 16 = none ∧
      ¬ ReadsOwnWrites .samplePatch [107] := by
  have hset : (beeBucketSet .samplePatch [107] [118] true).1 = 0 := rfl
  have hget : beeBucketGet (beeBucketSet .samplePatch [107] [118] true).2 [107] 16 = none := rfl
  refine ⟨hset, hget, fun h => ?_⟩
  have hread := (h.set [118] true hset).get 16 (by decide)
  rw [hget] at hread
  cases hread

end Esq
