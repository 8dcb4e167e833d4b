import Esq.Bee.Online

/-!
# memory bucket の世代

一つの map の一つの hash に、`ShiftMemBucket` だけで bucket を開く。shift のたびに新しい KCDB が
`kcdb[1]` に入り、二つ前の KCDB は閉じられる。

読んだ結果は、二つ前の shift より後の最後の書き込みで決まる（`mem_generations`）。削除は `kcdb[1]` に
`timeval` だけの record を残し、この record が `kcdb[0]` の古い record を覆う。覆う record は、
覆われる record より後の世代にあるから、先に捨てられることは無い。
-/

namespace Esq

open Infra

/-! ## 操作 -/

inductive MemOp where
  | shift (io : ShiftIo)
  | set (key value : List UInt8) (ok : Bool)
  | del (key value : List UInt8) (ok : Bool)

inductive MemEvent where
  | shift
  | set (key value : List UInt8)
  | del (key value : List UInt8)
deriving DecidableEq, Repr

section

variable (rangeMap hash : List UInt8)

/-- map と hash の bucket。`hash` の終わりの `x` は key に含まれない。 -/
def memBucketOf (st : Bee) : Option Nat := esqBeeFindBucket st rangeMap hash.dropLast 0 0

def memWrite (st : Bee) (write : BeeBucket → Int × BeeBucket) : Int × Bee :=
  match memBucketOf rangeMap hash st with
  | none => (esqErrorNotfound, st)
  | some p => ((write (st.bucket p)).1, st.setBucket p (write (st.bucket p)).2)

def memStep (st : Bee) : MemOp → Option MemEvent × Bee
  | .shift io =>
    let r := beeShiftMemBucket io st rangeMap hash
    (if r.1.isNone then some .shift else none, r.2)
  | .set key value ok =>
    let r := memWrite rangeMap hash st fun b => beeBucketSet b key value ok
    (if r.1 = 0 then some (.set key value) else none, r.2)
  | .del key value ok =>
    let r := memWrite rangeMap hash st fun b => beeBucketDel b key value ok
    (if r.1 = 0 then some (.del key value) else none, r.2)

def memRun : Bee × List MemEvent → List MemOp → Bee × List MemEvent
  | s, [] => s
  | (st, log), op :: ops =>
    memRun ((memStep rangeMap hash st op).2, (memStep rangeMap hash st op).1.toList ++ log) ops

def memGet (st : Bee) (key : List UInt8) (bufLen : Nat) : Option (List UInt8 × Nat) :=
  match memBucketOf rangeMap hash st with
  | none => none
  | some p => beeBucketGet (st.bucket p) key bufLen

end

/-! ## 世代 -/

namespace MemEvent

def isWrite : MemEvent → Bool
  | shift => false
  | _ => true

def key? : MemEvent → Option (List UInt8)
  | shift => none
  | set key _ => some key
  | del key _ => some key

def record? : MemEvent → Option (List UInt8)
  | shift => none
  | set _ value => some value
  | del _ value => some value

end MemEvent

def newer (log : List MemEvent) : List MemEvent := log.takeWhile MemEvent.isWrite

def older (log : List MemEvent) : List MemEvent := (log.dropWhile MemEvent.isWrite).tail

/-- 二つ前の shift より後の書き込み。shift が一つだけなら、その shift より後の書き込みである。 -/
def countedWrites (log : List MemEvent) : List MemEvent :=
  if 2 ≤ log.count .shift then newer log ++ newer (older log) else newer log

def latestWrite (log : List MemEvent) (key : List UInt8) : Option MemEvent :=
  log.find? fun e => e.key? = some key

def Answers (latest : Option MemEvent) (record : Option (List UInt8)) : Prop :=
  match latest with
  | some (.set _ value) => record = some value
  | some (.del _ value) => record = none ∨ record = some value
  | _ => record = none

section

variable {log : List MemEvent} {e : MemEvent} {key value : List UInt8}

@[simp] theorem newer_shift : newer (.shift :: log) = [] := rfl

@[simp] theorem older_shift : older (.shift :: log) = log := rfl

theorem newer_write (h : e.isWrite = true) : newer (e :: log) = e :: newer log := by
  rw [newer, List.takeWhile_cons_of_pos h]
  rfl

theorem older_write (h : e.isWrite = true) : older (e :: log) = older log := by
  rw [older, List.dropWhile_cons_of_pos h]
  rfl

theorem count_write (h : e.isWrite = true) :
    (e :: log).count .shift = log.count .shift := by
  refine List.count_cons_of_ne ?_
  rintro rfl
  cases h

theorem latestWrite_cons : latestWrite (e :: log) key
    = if e.key? = some key then some e else latestWrite log key := by
  rw [latestWrite, List.find?_cons]
  by_cases h : e.key? = some key
  · simp [h]
  · simp [h, latestWrite]

theorem latestWrite_append {xs ys : List MemEvent} :
    latestWrite (xs ++ ys) key = (latestWrite xs key).or (latestWrite ys key) :=
  List.find?_append

theorem latestWrite_cases (h : latestWrite log key = some e) :
    ∃ value, e = .set key value ∨ e = .del key value := by
  have hk : e.key? = some key := by simpa using List.find?_some h
  cases e with
  | shift => cases hk
  | set k v =>
    cases hk
    exact ⟨v, Or.inl rfl⟩
  | del k v =>
    cases hk
    exact ⟨v, Or.inr rfl⟩

/-! ## KCDB と記録 -/

/-- KCDB を読んだ結果は、最後の書き込みで決まる。 -/
def Kcdb.AnswersLog (db : Kcdb) (writes : List MemEvent) : Prop :=
  ∀ key, Answers (latestWrite writes key) (db key)

def Kcdb.Records (db : Kcdb) (writes : List MemEvent) : Prop :=
  ∀ key, db key = (latestWrite writes key).bind MemEvent.record?

theorem Kcdb.Records.answersLog {db : Kcdb} {writes : List MemEvent} (h : db.Records writes) :
    db.AnswersLog writes := by
  intro key
  rw [h key]
  cases hl : latestWrite writes key with
  | none => rfl
  | some e =>
    obtain ⟨value, rfl | rfl⟩ := latestWrite_cases hl
    · rfl
    · exact Or.inr rfl

theorem Kcdb.records_empty : Kcdb.empty.Records [] := fun _ => rfl

theorem Kcdb.AnswersLog.write {db db' : Kcdb} {writes : List MemEvent} (h : db.AnswersLog writes)
    (hkey : e.key? = some key) (hself : Answers (some e) (db' key))
    (hother : ∀ k, k ≠ key → db' k = db k) : db'.AnswersLog (e :: writes) := by
  intro k
  rw [latestWrite_cons, hkey]
  by_cases hk : k = key
  · subst hk
    rw [if_pos rfl]
    exact hself
  · rw [if_neg fun he => hk (Option.some.inj he).symm, hother k hk]
    exact h k

theorem Kcdb.Records.write {db db' : Kcdb} {writes : List MemEvent} (h : db.Records writes)
    (hkey : e.key? = some key) (hself : db' key = e.record?)
    (hother : ∀ k, k ≠ key → db' k = db k) : db'.Records (e :: writes) := by
  intro k
  rw [latestWrite_cons, hkey]
  by_cases hk : k = key
  · subst hk
    rw [if_pos rfl]
    exact hself
  · rw [if_neg fun he => hk (Option.some.inj he).symm, hother k hk]
    exact h k

/-! ## bucket と記録 -/

/--
bucket の二つの KCDB と記録の対応。

`kcdb[1]` は削除も record として持つ。`kcdb[0]` は、一度目の shift の後には削除した record を
持たないことがある。
-/
inductive Generations (b : BeeBucket) (log : List MemEvent) : Prop where
  | one {db0 : Kcdb} (h0 : b.kcdb 0 = some db0) (h1 : b.kcdb 1 = none)
      (hshift : log.count .shift = 1) (hold : db0.AnswersLog (newer log))
  | two {db0 db1 : Kcdb} (h0 : b.kcdb 0 = some db0) (h1 : b.kcdb 1 = some db1)
      (hshift : 2 ≤ log.count .shift) (hnew : db1.Records (newer log))
      (hold : db0.AnswersLog (newer (older log)))

/-- **読んだ結果は、二つ前の shift より後の最後の書き込みで決まる。** -/
theorem Generations.answers {b : BeeBucket} (h : Generations b log) (key : List UInt8) :
    Answers (latestWrite (countedWrites log) key) (b.record key) := by
  cases h with
  | one h0 h1 hshift hold =>
    rw [countedWrites, if_neg (by omega)]
    simp only [BeeBucket.record, h0, h1]
    exact hold key
  | two h0 h1 hshift hnew hold =>
    rw [countedWrites, if_pos hshift, latestWrite_append]
    simp only [BeeBucket.record, h0, h1]
    rw [hnew key]
    -- 新しい世代に書き込みがあれば、削除でもその record が古い世代を覆う
    cases hl : latestWrite (newer log) key with
    | none => simpa using hold key
    | some e =>
      obtain ⟨value, rfl | rfl⟩ := latestWrite_cases hl
      · rfl
      · exact Or.inr rfl

theorem generations_first {b : BeeBucket} (h0 : b.kcdb 0 = none) (h1 : b.kcdb 1 = none) :
    Generations (b.shift .empty) [.shift] := by
  have hb : b.shift .empty = b.setKcdb 0 (some .empty) := by simp [BeeBucket.shift, h0]
  rw [hb]
  exact .one BeeBucket.kcdb_setKcdb_self (by simp [h1]) rfl Kcdb.records_empty.answersLog

theorem Generations.shift {b : BeeBucket} (h : Generations b log) :
    Generations (b.shift .empty) (.shift :: log) := by
  cases h with
  | one h0 h1 hshift hold =>
    have hb : b.shift .empty = b.setKcdb 1 (some .empty) := by simp [BeeBucket.shift, h0, h1]
    rw [hb]
    refine .two (by simp [h0]) BeeBucket.kcdb_setKcdb_self ?_ Kcdb.records_empty hold
    rw [List.count_cons_self]
    omega
  | @two db0 db1 h0 h1 hshift hnew hold =>
    have hb : b.shift .empty = (b.setKcdb 0 (some db1)).setKcdb 1 (some .empty) := by
      simp [BeeBucket.shift, h0, h1]
    rw [hb]
    refine .two (by simp) BeeBucket.kcdb_setKcdb_self ?_ Kcdb.records_empty
      hnew.answersLog
    rw [List.count_cons_self]
    omega

/--
成功した書き込みを記録する。

`write1` は `kcdb[1]` に record を残し、`write0` は `kcdb[0]` を書き換える。
-/
theorem Generations.write {b : BeeBucket} {write1 write0 : Kcdb → Bool → Bool × Kcdb} {ok : Bool}
    (h : Generations b log) (hkey : e.key? = some key)
    (hwrite1 : KcdbWrite write1 key) (hwrite0 : KcdbWrite write0 key)
    (hself1 : ∀ db, (write1 db true).2 key = e.record?)
    (hself0 : ∀ db, Answers (some e) ((write0 db true).2 key))
    (hr : (beeBucketWrite write1 write0 b ok).1 = 0) :
    Generations (beeBucketWrite write1 write0 b ok).2 (e :: log) := by
  have hok := (bucketWrite_of_kcdbWrite hwrite1 hwrite0).succeeded hr
  subst hok
  have hw : e.isWrite = true := by
    cases e with
    | shift => cases hkey
    | set k v => rfl
    | del k v => rfl
  cases h with
  | one h0 h1 hshift hold =>
    rw [beeBucketWrite_zero h1 h0]
    refine .one BeeBucket.kcdb_setKcdb_self (by simp [h1]) ?_ ?_
    · rw [count_write hw]
      exact hshift
    · rw [newer_write hw]
      exact hold.write hkey (hself0 _) fun k hk => hwrite0.others hk
  | two h0 h1 hshift hnew hold =>
    rw [beeBucketWrite_one h1]
    refine .two (by simp [h0]; rfl) BeeBucket.kcdb_setKcdb_self ?_ ?_ ?_
    · rw [count_write hw]
      exact hshift
    · rw [newer_write hw]
      exact hnew.write hkey (hself1 _) fun k hk => hwrite1.others hk
    · rw [older_write hw]
      exact hold

theorem Generations.set {b : BeeBucket} {ok : Bool} (h : Generations b log)
    (hr : (beeBucketSet b key value ok).1 = 0) :
    Generations (beeBucketSet b key value ok).2 (.set key value :: log) :=
  h.write rfl kcdbWrite_set kcdbWrite_set (fun db => db.set_self) (fun db => db.set_self) hr

theorem Generations.del {b : BeeBucket} {ok : Bool} (h : Generations b log)
    (hr : (beeBucketDel b key value ok).1 = 0) :
    Generations (beeBucketDel b key value ok).2 (.del key value :: log) :=
  h.write rfl kcdbWrite_set kcdbWrite_remove (fun db => db.set_self)
    (fun db => Or.inl db.remove_self) hr

end

/-! ## 開いている bucket -/

section

variable {rangeMap hash : List UInt8} {st : Bee} {log : List MemEvent}

/-- 開いている bucket は、その map と hash のものだけである。 -/
inductive MemInv (rangeMap hash : List UInt8) (st : Bee) (log : List MemEvent) : Prop where
  | closed (htree : st.esqBucketRb = .nil) (hlog : log = [])
  | opened {p : Nat} (htree : st.esqBucketRb = .node .nil p .nil)
      (hkey : (st.bucket p).key = (rangeMap, hash.dropLast, 0, 0))
      (hgen : Generations (st.bucket p) log)

theorem memBucketOf_closed (h : st.esqBucketRb = .nil) : memBucketOf rangeMap hash st = none := by
  simp [memBucketOf, esqBeeFindBucket, Bee.rbFind, h, SearchTree.find]

theorem memBucketOf_opened {p : Nat} (h : st.esqBucketRb = .node .nil p .nil)
    (hkey : (st.bucket p).key = (rangeMap, hash.dropLast, 0, 0)) :
    memBucketOf rangeMap hash st = some p := by
  have hcmp : esqBeeBucketCmp { rangeMapName := rangeMap, hashStr := hash.dropLast } (st.bucket p)
      = 0 := esqBeeBucketCmp_of_key_eq hkey.symm
  simp [memBucketOf, esqBeeFindBucket, Bee.rbFind, h, SearchTree.find, hcmp]

theorem memBucket_key {hashLen : Nat} (h : CheckedNameHash rangeMap hash hashLen) :
    (memBucket rangeMap hash hashLen).key = (rangeMap, hash.dropLast, 0, 0) := by
  obtain ⟨x, hx, hlen⟩ := h.split
  have hdrop : hash.dropLast = hash.take hashLen := by
    conv_lhs => rw [hx]
    exact List.dropLast_concat
  have hs := ofBuf_slices [] rangeMap [46] (hash.take hashLen) (x :: [46, 37]) 0 0 0
    (rangeMap.length + 1) rfl (by simp)
  rw [hlen] at hs
  have hbuf : rangeMap ++ [46] ++ hash ++ [46, 37]
      = [] ++ rangeMap ++ [46] ++ hash.take hashLen ++ (x :: [46, 37]) := by
    conv_lhs => rw [hx]
    simp
  unfold memBucket BeeBucket.key
  rw [hbuf, hs.1, hs.2, hdrop]
  rfl

/-- **shift は、bucket が無ければ開き、あれば世代をずらす。** -/
theorem MemInv.shift (h : MemInv rangeMap hash st log) (io : ShiftIo) :
    MemInv rangeMap hash (memStep rangeMap hash st (.shift io)).2
      ((memStep rangeMap hash st (.shift io)).1.toList ++ log) := by
  rcases beeShiftMemBucket_cases io st rangeMap hash with
    ⟨errs, hfail⟩ | ⟨hashLen, a, ep, s, st', hch, -, hr, hstep, htree', hbucket'⟩
  · simp only [memStep, hfail]
    exact h
  · have hkey := memBucket_key hch
    simp only [memStep, hstep]
    show MemInv rangeMap hash st' (.shift :: log)
    cases h with
    | closed htree hlog =>
      subst hlog
      have hfind : st.rbFind (memBucket rangeMap hash hashLen) = none := by
        simp [Bee.rbFind, htree, SearchTree.find]
      simp only [Bee.rbInsert, hfind] at hr
      cases hr
      -- 一つの要素の木は回転しても変わらない
      have hnode : st'.esqBucketRb = .node .nil a .nil := by
        refine SearchTree.eq_of_toList_eq_singleton ?_
        rw [htree', SearchTree.toList_rotate, htree]
        rfl
      have hself : st'.bucket a = (memBucket rangeMap hash hashLen).shift .empty := by
        rw [hbucket', Option.getD_none, Function.update_self]
        simp only [Bee.setBucket, Function.update_self]
      refine .opened hnode ?_ ?_
      · rw [hself, BeeBucket.key_shift, hkey]
      · rw [hself]
        exact generations_first rfl rfl
    | @opened p htree hkeyp hgen =>
      have hcmp : esqBeeBucketCmp (memBucket rangeMap hash hashLen) (st.bucket p) = 0 :=
        esqBeeBucketCmp_of_key_eq (hkey.trans hkeyp.symm)
      have hfind : st.rbFind (memBucket rangeMap hash hashLen) = some p := by
        simp [Bee.rbFind, htree, SearchTree.find, hcmp]
      simp only [Bee.rbInsert, hfind] at hr
      cases hr
      have hself : st'.bucket p = (st.bucket p).shift .empty := by
        rw [hbucket', Option.getD_some, Function.update_self]
      refine .opened (htree'.trans htree) ?_ ?_
      · rw [hself, BeeBucket.key_shift, hkeyp]
      · rw [hself]
        exact hgen.shift

theorem MemInv.write {write : BeeBucket → Bool → Int × BeeBucket} {key : List UInt8} {e : MemEvent}
    {ok : Bool} (h : MemInv rangeMap hash st log) (hw : BucketWrite write key)
    (hkeep : ∀ b, (write b ok).2.key = b.key)
    (hgen : ∀ b, Generations b log → (write b ok).1 = 0 → Generations (write b ok).2 (e :: log)) :
    MemInv rangeMap hash (memWrite rangeMap hash st fun b => write b ok).2
      ((if (memWrite rangeMap hash st fun b => write b ok).1 = 0 then some e else none).toList
        ++ log) := by
  cases h with
  | closed htree hlog =>
    simp only [memWrite, memBucketOf_closed htree, esqErrorNotfound_ne_zero, if_false]
    exact .closed htree hlog
  | @opened p htree hkey hg =>
    simp only [memWrite, memBucketOf_opened htree hkey]
    have hself : (st.setBucket p (write (st.bucket p) ok).2).bucket p = (write (st.bucket p) ok).2 :=
      Function.update_self ..
    split
    · next hr =>
      refine .opened htree ?_ ?_
      · rw [hself, hkeep, hkey]
      · rw [hself]
        exact hgen _ hg hr
    · next hr =>
      refine .opened htree ?_ ?_
      · rw [hself, hkeep, hkey]
      · rw [hself, hw.failed hr]
        exact hg

theorem key_beeBucketWrite {write1 write0 : Kcdb → Bool → Bool × Kcdb} (b : BeeBucket) (ok : Bool) :
    (beeBucketWrite write1 write0 b ok).2.key = b.key := by
  unfold beeBucketWrite
  split <;> rfl

theorem memInv_step (h : MemInv rangeMap hash st log) (op : MemOp) :
    MemInv rangeMap hash (memStep rangeMap hash st op).2
      ((memStep rangeMap hash st op).1.toList ++ log) := by
  cases op with
  | shift io => exact h.shift io
  | set key value ok =>
    exact h.write bucketWrite_set (fun b => key_beeBucketWrite b ok) fun _ hg hr => hg.set hr
  | del key value ok =>
    exact h.write bucketWrite_del (fun b => key_beeBucketWrite b ok) fun _ hg hr => hg.del hr

theorem memInv_run : ∀ (ops : List MemOp) {st : Bee} {log : List MemEvent},
    MemInv rangeMap hash st log →
    MemInv rangeMap hash (memRun rangeMap hash (st, log) ops).1
      (memRun rangeMap hash (st, log) ops).2
  | [], _, _, h => h
  | op :: ops, _, _, h => memInv_run ops (memInv_step h op)

/-! ## 主定理 -/

/-- 十分な大きさの buffer で読むと `record` が得られる。 -/
def Reads (get : Nat → Option (List UInt8 × Nat)) : Option (List UInt8) → Prop
  | none => ∀ n, get n = none
  | some value => ∀ n, value.length ≤ n → get n = some (value, value.length)

theorem reads_beeBucketGet (b : BeeBucket) (key : List UInt8) :
    Reads (beeBucketGet b key) (b.record key) := by
  cases hr : b.record key with
  | none =>
    intro n
    rw [beeBucketGet_eq, hr]
    rfl
  | some value =>
    intro n hn
    rw [beeBucketGet_eq, hr, Option.map_some, List.take_of_length_le hn]

theorem latestWrite_split (log : List MemEvent) (key : List UInt8) :
    latestWrite log key = (latestWrite (newer log) key).or (latestWrite (older log) key) := by
  induction log with
  | nil => rfl
  | cons e log ih =>
    by_cases hw : e.isWrite = true
    · rw [newer_write hw, older_write hw, latestWrite_cons, latestWrite_cons, ih]
      split
      · rfl
      · rfl
    · have he : e = .shift := by
        cases e with
        | shift => rfl
        | set k v => exact absurd rfl hw
        | del k v => exact absurd rfl hw
      subst he
      rw [latestWrite_cons, newer_shift, older_shift]
      rfl

theorem latestWrite_counted (log : List MemEvent) (key : List UInt8) :
    latestWrite (countedWrites log) key = none ∨
      latestWrite (countedWrites log) key = latestWrite log key := by
  have hor : ∀ x y : Option MemEvent, x = none ∨ x = x.or y := by
    intro x y
    cases x with
    | none => exact Or.inl rfl
    | some e => exact Or.inr rfl
  rw [latestWrite_split log key]
  unfold countedWrites
  split
  · rw [latestWrite_append, latestWrite_split (older log) key, ← Option.or_assoc]
    exact hor _ _
  · exact hor _ _

/--
**memory bucket を読むと、二つ前の shift より後の最後の書き込みが見える。**

set の後は書いた value が、del の後は tombstone が読めるか何も読めないかで、書き込みが無ければ何も
読めない。消した key は、書き直さない限り古い value で読めない。
-/
theorem mem_generations (rangeMap hash : List UInt8) (ops : List MemOp) (key : List UInt8) :
    ∃ record,
      Reads (memGet rangeMap hash (memRun rangeMap hash (.init, []) ops).1 key) record ∧
      Answers (latestWrite (countedWrites (memRun rangeMap hash (.init, []) ops).2) key) record ∧
      ∀ tombstone, latestWrite (memRun rangeMap hash (.init, []) ops).2 key
        = some (.del key tombstone) → record = none ∨ record = some tombstone := by
  have hinit : MemInv rangeMap hash .init [] := .closed rfl rfl
  have hinv := memInv_run ops hinit
  generalize memRun rangeMap hash (.init, []) ops = s at hinv
  rcases s with ⟨st, log⟩
  have hread : ∃ record, Reads (memGet rangeMap hash st key) record ∧
      Answers (latestWrite (countedWrites log) key) record := by
    cases hinv with
    | closed htree hlog =>
      refine ⟨none, fun n => ?_, ?_⟩
      · simp only [memGet, memBucketOf_closed htree]
      · have hlog : log = [] := hlog
        subst hlog
        rfl
    | @opened p htree hkey hgen =>
      refine ⟨(st.bucket p).record key, ?_, hgen.answers key⟩
      have hget : memGet rangeMap hash st key = beeBucketGet (st.bucket p) key := by
        funext n
        simp only [memGet, memBucketOf_opened htree hkey]
      rw [hget]
      exact reads_beeBucketGet _ _
  obtain ⟨record, hreads, hans⟩ := hread
  refine ⟨record, hreads, hans, fun tombstone hdel => ?_⟩
  have hdel : latestWrite log key = some (.del key tombstone) := hdel
  rcases latestWrite_counted log key with hnone | heq
  · rw [hnone] at hans
    exact Or.inl hans
  · rw [heq, hdel] at hans
    exact hans

/-- 消した key は、次の shift の後も tombstone で読める。 -/
example :
    let io a : ShiftIo := { malloc := some a, kcdbnew := true, kcdbopen := true, rotate := id }
    memGet [97] [120] (memRun [97] [120] (.init, []) [.shift (io 0), .set [1] [2] true,
      .shift (io 1), .del [1] [3] true, .shift (io 1)]).1 [1] 16 = some ([3], 1) := by
  decide +kernel

end

end Esq
