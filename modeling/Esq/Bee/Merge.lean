import Esq.Bee.Open
import Esq.Bee.Session

/-!
# 同期された record の取り込み

`bee/bucket.c` の `esq_bucket_merge_item`。

record は `timeval` で始まり、新しい方を残すのが取り込みの目的である。ところが書き戻すのは届いた record
ではなく、いま読んだ record である。key が無ければ書きもしない。したがって取り込んでも bucket の中身は
変わらず、目的の通りになるのは、いまある record を残すべきときに限る（`merge_last_writer`）。
-/

namespace Esq

open Infra

/-! ## `struct timeval` -/

def longAt (buf : List UInt8) (i : Nat) : Int :=
  Int.bmod (leNat ((buf.drop (8 * i)).take 8)) (2 ^ 64)

def timerGt (a b : List UInt8) : Bool :=
  if longAt a 0 = longAt b 0 then longAt b 1 < longAt a 1 else longAt b 0 < longAt a 0

/-! ## 取り込み -/

/-- `bee_bucket_get2`。`ESQ_ERROR_NOTFOUND` は `none` で表す。 -/
def beeBucketGet2 (bucket : BeeBucket) (key : List UInt8) : Option (List UInt8) :=
  match bucket.kcdb 0 with
  | none => none
  | some db0 =>
    match bucket.kcdb 1 with
    | some db1 =>
      match db1 key with
      | some rp => some rp
      | none => db0 key
    | none => db0 key

structure MergeSession where
  rangeMapName : List UInt8 := []
  hashStr : List UInt8 := []
  key : List UInt8 := []
  /-- `timeval` で始まる record。長さは `bee_db_start_merge_sprint0` が調べる -/
  value : List UInt8 := []
  bucket : Option Nat := none
deriving DecidableEq, Repr

/-- 取り込む先の bucket。一度見つけたら探し直さない。 -/
def mergeBucket (st : Bee) (session : MergeSession) : Option Nat :=
  match session.bucket with
  | some b => some b
  | none =>
    if session.rangeMapName = [] then none
    else esqBeeFindBucket st session.rangeMapName session.hashStr 0 0

/-- 見つけた bucket に取り込む。`ok` は `kcdbset` が成功することである。 -/
def mergeRecord (b : BeeBucket) (key value : List UInt8) (ok : Bool) : BeeBucket :=
  match beeBucketGet2 b key with
  | none => b
  | some data =>
    if data.length < timevalSize then (beeBucketSet b key data ok).2
    else if timerGt value data then (beeBucketSet b key data ok).2
    else b

def esqBucketMergeItem (st : Bee) (session : MergeSession) (ok : Bool) : Int × Bee × MergeSession :=
  match mergeBucket st session with
  | none => (-1, st, session)
  | some b =>
    (0, st.setBucket b (mergeRecord (st.bucket b) session.key session.value ok),
      { session with bucket := some b })

/-! ## bucket の中身 -/

section

variable {b : BeeBucket} {key k value : List UInt8} {ok : Bool}

theorem beeBucketGet2_eq : beeBucketGet2 b key = b.record key := by
  unfold beeBucketGet2 BeeBucket.record
  cases b.kcdb 0 with
  | none => rfl
  | some db0 =>
    cases b.kcdb 1 with
    | none => rfl
    | some db1 =>
      dsimp only
      cases db1 key <;> rfl

theorem record_writeBack (h : b.record key = some value) (k : List UInt8) :
    (beeBucketSet b key value ok).2.record k = b.record k := by
  have hw : BucketWrite (fun b => beeBucketSet b key value) key := bucketWrite_set
  by_cases hr : (beeBucketSet b key value ok).1 = 0
  · by_cases hk : k = key
    · subst hk
      have h0 : (b.kcdb 0).isSome = true := by
        cases hb : b.kcdb 0 with
        | none => simp [BeeBucket.record, hb] at h
        | some db0 => rfl
      rw [record_beeBucketSet hr, if_pos h0, h]
    · exact hw.others hk
  · have hfail : (beeBucketSet b key value ok).2 = b := hw.failed hr
    rw [hfail]

/-- **取り込みは、どの key の record も変えない。** -/
theorem record_mergeRecord (k : List UInt8) :
    (mergeRecord b key value ok).record k = b.record k := by
  unfold mergeRecord
  rw [beeBucketGet2_eq]
  cases hr : b.record key with
  | none => rfl
  | some data =>
    dsimp only
    split
    · exact record_writeBack hr k
    · split
      · exact record_writeBack hr k
      · rfl

end

/-! ## 新しい方を残す -/

/--
残すべき record。

`timeval` より短い record には時刻が無い。これを古いものとみなすかどうかは `shortIsOlder` で選ぶ。
-/
def lastWriter (shortIsOlder : Bool) (stored : Option (List UInt8)) (incoming : List UInt8) :
    List UInt8 :=
  match stored with
  | none => incoming
  | some v =>
    if v.length < timevalSize then if shortIsOlder then incoming else v
    else if timerGt incoming v then incoming else v

/-- 取り込みが成功したら、bucket には残すべき record がある。 -/
def MergesLastWriter (shortIsOlder : Bool) (st : Bee) (session : MergeSession) (ok : Bool) : Prop :=
  (esqBucketMergeItem st session ok).1 = 0 → ∀ b, mergeBucket st session = some b →
    ((esqBucketMergeItem st session ok).2.1.bucket b).record session.key
      = some (lastWriter shortIsOlder ((st.bucket b).record session.key) session.value)

def StoredStays (shortIsOlder : Bool) (stored : Option (List UInt8)) (incoming : List UInt8) :
    Prop :=
  ∃ v, stored = some v ∧
    if v.length < timevalSize then shortIsOlder = false else timerGt incoming v = false

/-- 届いた record の列を順に取り込む。失敗したらそこで止まる。 -/
def mergeItems : Bee × MergeSession → List (List UInt8 × List UInt8 × Bool) → Bee × MergeSession
  | s, [] => s
  | (st, session), (key, value, ok) :: items =>
    match esqBucketMergeItem st { session with key, value } ok with
    | (0, st, session) => mergeItems (st, session) items
    | (_, st, session) => (st, session)

def Bee.contents (st : Bee) (b : Nat) (key : List UInt8) : Option (List UInt8) :=
  (st.bucket b).record key

theorem contents_esqBucketMergeItem (st : Bee) (session : MergeSession) (ok : Bool) :
    (esqBucketMergeItem st session ok).2.1.contents = st.contents := by
  unfold esqBucketMergeItem
  cases mergeBucket st session with
  | none => rfl
  | some b =>
    funext a k
    by_cases ha : a = b
    · subst ha
      simp only [Bee.contents, Bee.setBucket, Function.update_self]
      exact record_mergeRecord k
    · simp only [Bee.contents, Bee.setBucket, Function.update_of_ne ha]

theorem contents_mergeItems : ∀ (items : List (List UInt8 × List UInt8 × Bool)) (st : Bee)
    (session : MergeSession), (mergeItems (st, session) items).1.contents = st.contents
  | [], _, _ => rfl
  | (key, value, ok) :: items, st, session => by
    have hitem := contents_esqBucketMergeItem st { session with key, value } ok
    unfold mergeItems
    split
    · next st' session' heq =>
      rw [heq] at hitem
      exact (contents_mergeItems items st' session').trans hitem
    · next heq =>
      rw [heq] at hitem
      exact hitem

theorem timerGt_irrefl (a : List UInt8) : timerGt a a = false := by simp [timerGt]

theorem eq_lastWriter_iff {shortIsOlder : Bool} {stored : Option (List UInt8)}
    {incoming : List UInt8} (h : timevalSize ≤ incoming.length) :
    stored = some (lastWriter shortIsOlder stored incoming) ↔
      StoredStays shortIsOlder stored incoming := by
  unfold StoredStays
  cases stored with
  | none => simp
  | some v =>
    simp only [lastWriter, Option.some.injEq, exists_eq_left']
    by_cases hv : v.length < timevalSize
    · rw [if_pos hv, if_pos hv]
      cases shortIsOlder with
      | false => simp
      | true =>
        -- 届いた record は `timeval` を持つから、短い record と等しくない
        simp only [if_true]
        constructor
        · rintro rfl
          omega
        · intro hf
          cases hf
    · rw [if_neg hv, if_neg hv]
      cases hgt : timerGt incoming v with
      | false => simp
      | true =>
        simp only [if_true]
        constructor
        · rintro rfl
          rw [timerGt_irrefl] at hgt
          cases hgt
        · intro hf
          cases hf

/--
**取り込みが新しい方を残すのは、いまある record を残すべきときに限る。**

取り込みは何も変えないので、同じ列を二度取り込んでも、二つの列をどちらから取り込んでも、結果は同じである。
-/
theorem merge_last_writer (shortIsOlder : Bool) (st : Bee) (session : MergeSession) (ok : Bool)
    (h : timevalSize ≤ session.value.length) :
    (MergesLastWriter shortIsOlder st session ok ↔ ∀ b, mergeBucket st session = some b →
      StoredStays shortIsOlder ((st.bucket b).record session.key) session.value) ∧
    (∀ items, (mergeItems (mergeItems (st, session) items) items).1.contents
      = (mergeItems (st, session) items).1.contents) ∧
    ∀ xs ys, (mergeItems (mergeItems (st, session) xs) ys).1.contents
      = (mergeItems (mergeItems (st, session) ys) xs).1.contents := by
  refine ⟨?_, ?_, ?_⟩
  · have hsame : ∀ b, ((esqBucketMergeItem st session ok).2.1.bucket b).record session.key
        = (st.bucket b).record session.key :=
      fun b => congrFun (congrFun (contents_esqBucketMergeItem st session ok) b) session.key
    unfold MergesLastWriter
    simp only [hsame]
    constructor
    · intro hm b hb
      refine (eq_lastWriter_iff h).mp (hm ?_ b hb)
      simp [esqBucketMergeItem, hb]
    · intro hs _ b hb
      exact (eq_lastWriter_iff h).mpr (hs b hb)
  · intro items
    rw [contents_mergeItems]
  · intro xs ys
    rw [contents_mergeItems, contents_mergeItems, contents_mergeItems, contents_mergeItems]

/-- 名前 `a`、hash の空な memory bucket だけを開いた状態。 -/
def Bee.oneBucket : Bee :=
  (beeShiftMemBucket { malloc := some 0, kcdbnew := true, kcdbopen := true, rotate := id } .init
    [97] [120]).2

def timevalOf (sec : UInt8) : List UInt8 := sec :: List.replicate 15 0

def Bee.prepared (key value : List UInt8) : Bee :=
  Bee.oneBucket.setBucket 0 (beeBucketSet (Bee.oneBucket.bucket 0) key value true).2

/-- 届いた record の方が古いときは、いまある record が残る。 -/
theorem merge_older_record :
    MergesLastWriter true (.prepared [1] (timevalOf 2))
      { rangeMapName := [97], key := [1], value := timevalOf 1 } true := by
  refine (merge_last_writer true _ _ true (by decide)).1.mpr fun b hb => ?_
  have h0 : mergeBucket (.prepared [1] (timevalOf 2))
      { rangeMapName := [97], key := [1], value := timevalOf 1 } = some 0 := by decide +kernel
  rw [h0] at hb
  cases hb
  exact ⟨timevalOf 2, by decide +kernel, by decide +kernel⟩

/-- 無い key も、新しい record も、取り込まれない。 -/
theorem merge_drops_incoming :
    ¬ MergesLastWriter true .oneBucket
        { rangeMapName := [97], key := [1], value := timevalOf 1 } true ∧
      ¬ MergesLastWriter true (.prepared [1] (timevalOf 1))
        { rangeMapName := [97], key := [1], value := timevalOf 2 } true := by
  refine ⟨fun h => ?_, fun h => ?_⟩
  · have h1 := h (by decide +kernel) 0 (by decide +kernel)
    exact absurd h1 (by decide +kernel)
  · have h1 := h (by decide +kernel) 0 (by decide +kernel)
    exact absurd h1 (by decide +kernel)

end Esq
