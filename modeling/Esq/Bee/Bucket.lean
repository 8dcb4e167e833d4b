import Esq.Basic
import Mathlib.Logic.Function.Basic

/-!
# bucket の読み書き

`bee/bucket.c` の `bee_bucket_get`・`bee_bucket_set`・`bee_bucket_del`。

KCDB は key から record への有限の写像として扱う。`kcdbset` と `kcdbremove` は失敗することがあり、
失敗したときは中身を変えない。失敗するかどうかは外から与える。

bucket は KCDB を二つまで持つ。`kcdb[1]` があれば書き込みはそちらへ行き、読むときは `kcdb[1]` が
`kcdb[0]` を覆う。`kcdb[1]` のある bucket の削除は、`timeval` だけの record を書くことで表される。
-/

namespace Esq

/-! ## KCDB -/

def Kcdb := List UInt8 → Option (List UInt8)

namespace Kcdb

def empty : Kcdb := fun _ => none

def set (db : Kcdb) (key value : List UInt8) (ok : Bool) : Bool × Kcdb :=
  if ok then (true, Function.update db key (some value)) else (false, db)

def remove (db : Kcdb) (key : List UInt8) (ok : Bool) : Bool × Kcdb :=
  match db key with
  | none => (false, db)
  | some _ => if ok then (true, Function.update db key none) else (false, db)

/-- `kcdbgetbuf`。buffer に写した byte と、record 全体の長さを返す。`-1` は `none` で表す。 -/
def getbuf (db : Kcdb) (key : List UInt8) (max : Nat) : Option (List UInt8 × Nat) :=
  (db key).map fun value => (value.take max, value.length)

end Kcdb

/-! ## bucket -/

instance instNeZeroKcdb : @NeZero Nat Zero.ofOfNat0 2 := Nat.instNeZeroSucc

/-- `bee_bucket_t`。`rangeMapName` と `hashStr` は `buf` の中を指す。 -/
structure BeeBucket where
  rangeMapName : List UInt8
  hashStr : List UInt8
  /-- local の bucket では 0 -/
  ip : Nat := 0
  /-- local の bucket では 0 -/
  port : Int := 0
  kcdb : Fin 2 → Option Kcdb := fun _ => none
  buf : List UInt8 := []

namespace BeeBucket

def setKcdb (b : BeeBucket) (idx : Fin 2) (db : Option Kcdb) : BeeBucket :=
  { b with kcdb := Function.update b.kcdb idx db }

def record (b : BeeBucket) (key : List UInt8) : Option (List UInt8) :=
  match b.kcdb 0 with
  | none => none
  | some db0 =>
    match b.kcdb 1 with
    | none => db0 key
    | some db1 => (db1 key).or (db0 key)

end BeeBucket

/-- `bee_bucket_get`。`ESQ_ERROR_NOTFOUND` は `none` で表す。 -/
def beeBucketGet (bucket : BeeBucket) (key : List UInt8) (bufLen : Nat) :
    Option (List UInt8 × Nat) :=
  match bucket.kcdb 0 with
  | none => none
  | some db0 =>
    match bucket.kcdb 1 with
    | some db1 =>
      match db1.getbuf key bufLen with
      | some r => some r
      | none => db0.getbuf key bufLen
    | none => db0.getbuf key bufLen

/-- `if (r) return 0; else return ESQ_ERROR_LIBCALL;` -/
def kcdbReturn (r : Bool) : Int := if r then 0 else esqErrorLibcall

/--
`bee_bucket_set` と `bee_bucket_del` の本体。`kcdb[1]` があれば `write1` で、無ければ `kcdb[0]` を
`write0` で書く。
-/
def beeBucketWrite (write1 write0 : Kcdb → Bool → Bool × Kcdb) (bucket : BeeBucket) (ok : Bool) :
    Int × BeeBucket :=
  match bucket.kcdb 1, bucket.kcdb 0 with
  | some db1, _ =>
    let (r, db1) := write1 db1 ok
    (kcdbReturn r, bucket.setKcdb 1 (some db1))
  | none, some db0 =>
    let (r, db0) := write0 db0 ok
    (kcdbReturn r, bucket.setKcdb 0 (some db0))
  | none, none => (esqErrorNotfound, bucket)

def beeBucketSet (bucket : BeeBucket) (key value : List UInt8) (ok : Bool) : Int × BeeBucket :=
  beeBucketWrite (fun db => db.set key value) (fun db => db.set key value) bucket ok

/-- `bee_bucket_del`。`value` は `kcdb[1]` に残す record である。 -/
def beeBucketDel (bucket : BeeBucket) (key value : List UInt8) (ok : Bool) : Int × BeeBucket :=
  beeBucketWrite (fun db => db.set key value) (fun db => db.remove key) bucket ok

/-! ## 読み書きの性質 -/

section

variable {b : BeeBucket} {key k value : List UInt8} {ok : Bool} {idx i : Fin 2} {db : Option Kcdb}

@[simp] theorem BeeBucket.kcdb_setKcdb_self : (b.setKcdb idx db).kcdb idx = db :=
  Function.update_self ..

theorem BeeBucket.kcdb_setKcdb_of_ne (h : i ≠ idx) : (b.setKcdb idx db).kcdb i = b.kcdb i :=
  Function.update_of_ne h _ _

@[simp] theorem BeeBucket.kcdb_one_setKcdb_zero : (b.setKcdb 0 db).kcdb 1 = b.kcdb 1 :=
  kcdb_setKcdb_of_ne (by decide)

@[simp] theorem BeeBucket.kcdb_zero_setKcdb_one : (b.setKcdb 1 db).kcdb 0 = b.kcdb 0 :=
  kcdb_setKcdb_of_ne (by decide)

theorem BeeBucket.setKcdb_eq_self (h : b.kcdb idx = db) : b.setKcdb idx db = b := by
  subst h
  unfold setKcdb
  rw [Function.update_eq_self]

theorem beeBucketGet_eq (n : Nat) :
    beeBucketGet b key n = (b.record key).map fun v => (v.take n, v.length) := by
  unfold beeBucketGet BeeBucket.record
  cases b.kcdb 0 with
  | none => rfl
  | some db0 =>
    cases b.kcdb 1 with
    | none => rfl
    | some db1 =>
      simp only [Kcdb.getbuf]
      cases db1 key <;> simp

structure BucketWrite (write : BeeBucket → Bool → Int × BeeBucket) (key : List UInt8) : Prop where
  /-- 失敗したら何も変わらない -/
  failed : ∀ {b ok}, (write b ok).1 ≠ 0 → (write b ok).2 = b
  /-- 成功するのは library が成功したときに限る -/
  succeeded : ∀ {b ok}, (write b ok).1 = 0 → ok = true
  attached : ∀ {b ok} (i : Fin 2), ((write b ok).2.kcdb i).isSome = (b.kcdb i).isSome
  others : ∀ {b ok k}, k ≠ key → (write b ok).2.record k = b.record k

@[simp] theorem Kcdb.set_self (db : Kcdb) : (db.set key value true).2 key = some value :=
  Function.update_self ..

theorem Kcdb.remove_self (db : Kcdb) : (db.remove key true).2 key = none := by
  unfold remove
  cases hk : db key with
  | none => exact hk
  | some v => exact Function.update_self ..

theorem esqErrorNotfound_ne_zero : esqErrorNotfound ≠ 0 := by decide

theorem kcdbReturn_eq_zero {r : Bool} : kcdbReturn r = 0 ↔ r = true := by
  cases r <;> simp [kcdbReturn, esqErrorLibcall]

structure KcdbWrite (write : Kcdb → Bool → Bool × Kcdb) (key : List UInt8) : Prop where
  failed : ∀ {db ok}, (write db ok).1 = false → (write db ok).2 = db
  succeeded : ∀ {db ok}, (write db ok).1 = true → ok = true
  others : ∀ {db ok k}, k ≠ key → (write db ok).2 k = db k

theorem kcdbWrite_set : KcdbWrite (fun db => db.set key value) key where
  failed {db ok} h := by
    cases ok
    · rfl
    · simp [Kcdb.set] at h
  succeeded {db ok} h := by
    cases ok
    · simp [Kcdb.set] at h
    · rfl
  others {db ok k} h := by
    cases ok
    · rfl
    · exact Function.update_of_ne h _ _

theorem kcdbWrite_remove : KcdbWrite (fun db => db.remove key) key where
  failed {db ok} h := by
    simp only [Kcdb.remove] at h ⊢
    cases hk : db key with
    | none => rfl
    | some v => cases ok <;> simp [hk] at h ⊢
  succeeded {db ok} h := by
    simp only [Kcdb.remove] at h
    cases hk : db key with
    | none => simp [hk] at h
    | some v => cases ok <;> simp [hk] at h ⊢
  others {db ok k} h := by
    simp only [Kcdb.remove]
    cases db key with
    | none => rfl
    | some v =>
      cases ok
      · rfl
      · exact Function.update_of_ne h _ _

section

variable {write1 write0 : Kcdb → Bool → Bool × Kcdb}

theorem beeBucketWrite_one {db1 : Kcdb} (h : b.kcdb 1 = some db1) :
    beeBucketWrite write1 write0 b ok
      = (kcdbReturn (write1 db1 ok).1, b.setKcdb 1 (some (write1 db1 ok).2)) := by
  simp [beeBucketWrite, h]

theorem beeBucketWrite_zero {db0 : Kcdb} (h1 : b.kcdb 1 = none) (h0 : b.kcdb 0 = some db0) :
    beeBucketWrite write1 write0 b ok
      = (kcdbReturn (write0 db0 ok).1, b.setKcdb 0 (some (write0 db0 ok).2)) := by
  simp [beeBucketWrite, h1, h0]

theorem beeBucketWrite_none (h1 : b.kcdb 1 = none) (h0 : b.kcdb 0 = none) :
    beeBucketWrite write1 write0 b ok = (esqErrorNotfound, b) := by
  simp [beeBucketWrite, h1, h0]

theorem isSome_kcdb_setKcdb {db db' : Kcdb} (h : b.kcdb idx = some db) (i : Fin 2) :
    ((b.setKcdb idx (some db')).kcdb i).isSome = (b.kcdb i).isSome := by
  by_cases hi : i = idx
  · subst hi
    simp [h]
  · rw [BeeBucket.kcdb_setKcdb_of_ne hi]

/-- **書き込みは、その key の他の record を変えず、失敗したら何も変えない。** -/
theorem bucketWrite_of_kcdbWrite (h1 : KcdbWrite write1 key) (h0 : KcdbWrite write0 key) :
    BucketWrite (beeBucketWrite write1 write0) key where
  failed {b ok} h := by
    cases hb1 : b.kcdb 1 with
    | some db1 =>
      rw [beeBucketWrite_one hb1] at h ⊢
      simp only [ne_eq, kcdbReturn_eq_zero, Bool.not_eq_true] at h
      exact BeeBucket.setKcdb_eq_self (by rw [h1.failed h, hb1])
    | none =>
      cases hb0 : b.kcdb 0 with
      | some db0 =>
        rw [beeBucketWrite_zero hb1 hb0] at h ⊢
        simp only [ne_eq, kcdbReturn_eq_zero, Bool.not_eq_true] at h
        exact BeeBucket.setKcdb_eq_self (by rw [h0.failed h, hb0])
      | none => rw [beeBucketWrite_none hb1 hb0]
  succeeded {b ok} h := by
    cases hb1 : b.kcdb 1 with
    | some db1 =>
      rw [beeBucketWrite_one hb1] at h
      exact h1.succeeded (kcdbReturn_eq_zero.mp h)
    | none =>
      cases hb0 : b.kcdb 0 with
      | some db0 =>
        rw [beeBucketWrite_zero hb1 hb0] at h
        exact h0.succeeded (kcdbReturn_eq_zero.mp h)
      | none =>
        rw [beeBucketWrite_none hb1 hb0] at h
        exact absurd h esqErrorNotfound_ne_zero
  attached {b ok} i := by
    cases hb1 : b.kcdb 1 with
    | some db1 =>
      rw [beeBucketWrite_one hb1]
      exact isSome_kcdb_setKcdb hb1 i
    | none =>
      cases hb0 : b.kcdb 0 with
      | some db0 =>
        rw [beeBucketWrite_zero hb1 hb0]
        exact isSome_kcdb_setKcdb hb0 i
      | none => rw [beeBucketWrite_none hb1 hb0]
  others {b ok k} hk := by
    cases hb1 : b.kcdb 1 with
    | some db1 =>
      rw [beeBucketWrite_one hb1]
      unfold BeeBucket.record
      simp only [BeeBucket.kcdb_zero_setKcdb_one, BeeBucket.kcdb_setKcdb_self, hb1, h1.others hk]
    | none =>
      cases hb0 : b.kcdb 0 with
      | some db0 =>
        rw [beeBucketWrite_zero hb1 hb0]
        unfold BeeBucket.record
        simp only [BeeBucket.kcdb_one_setKcdb_zero, BeeBucket.kcdb_setKcdb_self, hb1, hb0,
          h0.others hk]
      | none => rw [beeBucketWrite_none hb1 hb0]

end

theorem bucketWrite_set : BucketWrite (fun b => beeBucketSet b key value) key :=
  bucketWrite_of_kcdbWrite kcdbWrite_set kcdbWrite_set

theorem bucketWrite_del : BucketWrite (fun b => beeBucketDel b key value) key :=
  bucketWrite_of_kcdbWrite kcdbWrite_set kcdbWrite_remove

/-- **SET が成功した bucket は、`kcdb[0]` があれば書いた record を返す。** -/
theorem record_beeBucketSet (h : (beeBucketSet b key value ok).1 = 0) :
    (beeBucketSet b key value ok).2.record key
      = if (b.kcdb 0).isSome then some value else none := by
  have hok := bucketWrite_set.succeeded h
  subst hok
  unfold beeBucketSet
  cases hb1 : b.kcdb 1 with
  | some db1 =>
    rw [beeBucketWrite_one hb1]
    unfold BeeBucket.record
    cases hb0 : b.kcdb 0 with
    | none => simp [hb0]
    | some db0 => simp [hb0]
  | none =>
    cases hb0 : b.kcdb 0 with
    | none => exact absurd h (by simp [beeBucketSet, beeBucketWrite_none hb1 hb0, esqErrorNotfound])
    | some db0 =>
      rw [beeBucketWrite_zero hb1 hb0]
      simp [BeeBucket.record, hb1]

/-- **DEL が成功した bucket は、record を返さないか、`value` を返す。** -/
theorem record_beeBucketDel (h : (beeBucketDel b key value ok).1 = 0) {v : List UInt8}
    (hv : (beeBucketDel b key value ok).2.record key = some v) : v = value := by
  have hok := bucketWrite_del.succeeded h
  subst hok
  unfold beeBucketDel at h hv
  cases hb1 : b.kcdb 1 with
  | some db1 =>
    rw [beeBucketWrite_one hb1] at hv
    unfold BeeBucket.record at hv
    cases hb0 : b.kcdb 0 with
    | none => simp [hb0] at hv
    | some db0 => simpa [hb0, eq_comm] using hv
  | none =>
    cases hb0 : b.kcdb 0 with
    | none =>
      rw [beeBucketWrite_none hb1 hb0] at h
      exact absurd h esqErrorNotfound_ne_zero
    | some db0 =>
      rw [beeBucketWrite_zero hb1 hb0] at hv
      simp only [BeeBucket.record, BeeBucket.kcdb_setKcdb_self, BeeBucket.kcdb_one_setKcdb_zero, hb1,
        Kcdb.remove_self] at hv
      cases hv

end

end Esq
