import Esq.Bee.Db
import Esq.RangeMap.Invariant

/-!
# 一つの node の record

map と bucket の付き方を動かさずに、SET・DEL・GET をどの順に処理しても、一つの key は register として
振る舞う。

書き込みは chain の bucket すべてに行き、読むのは `RM_NODE_ME` の bucket のうち最初に見つかった record
である（`localRecord`）。成功した SET の後は chain の bucket がどれも同じ record を見せるので、
どれが最初でも同じになる。成功した DEL の後に見える record は、あっても `timeval` だけである。
-/

namespace Esq

open Infra

/-! ## 要求の列 -/

inductive DbOp where
  | get (malloc : Option ReplyFromBeeToPony2)
  | set (io : WriteIo) (needSync : Bool)
  | del (io : WriteIo) (needSync : Bool)

structure DbRequest where
  op : DbOp
  ctx : BeeServiceCtx

def dbStep (node : BeeNode) (buckets : Buckets) (req : DbRequest) : Buckets :=
  match req.op with
  | .get _ => buckets
  | .set io needSync => (beeDbSet node io buckets req.ctx needSync).buckets
  | .del io needSync => (beeDbDel node io buckets req.ctx needSync).buckets

def dbRun (node : BeeNode) (buckets : Buckets) (reqs : List DbRequest) : Buckets :=
  reqs.foldl (dbStep node) buckets

def DbRequest.Sets (req : DbRequest) (key : List UInt8) : Prop :=
  (∃ io needSync, req.op = .set io needSync) ∧ req.ctx.key = key

def DbRequest.Writes (req : DbRequest) (key : List UInt8) : Prop :=
  (∀ malloc, req.op ≠ .get malloc) ∧ req.ctx.key = key

/-! ## 読む record -/

/-- chain の `RM_NODE_ME` の bucket のうち、最初に見つかった record。 -/
def localRecord (maps : RangeMaps) (buckets : Buckets) (key : List UInt8) :
    List Nat → Option (List UInt8)
  | [] => none
  | p :: ps =>
    if hasFlag (maps.node p).flags rmNodeMe then
      match (maps.node p).bucket with
      | none => localRecord maps buckets key ps
      | some b => ((buckets b).record key).or (localRecord maps buckets key ps)
    else localRecord maps buckets key ps

section

variable {maps : RangeMaps} {buckets buckets' : Buckets} {key k v : List UInt8} {ps : List Nat}
  {p b : Nat}

theorem beeDbGetLocal_eq (n : Nat) : ∀ ps : List Nat, beeDbGetLocal maps buckets key n ps
    = (localRecord maps buckets key ps).map fun v => (v.take n, v.length)
  | [] => rfl
  | p :: ps => by
    unfold beeDbGetLocal localRecord
    rw [beeDbGetLocal_eq n ps]
    split
    · cases (maps.node p).bucket with
      | none => rfl
      | some b =>
        simp only [beeBucketGet_eq]
        cases (buckets b).record key <;> rfl
    · rfl

theorem exists_of_localRecord : ∀ {ps : List Nat}, localRecord maps buckets key ps = some v →
    ∃ p ∈ ps, ∃ b, (maps.node p).bucket = some b ∧ (buckets b).record key = some v
  | [], h => by cases h
  | p :: ps, h => by
    have hrest : localRecord maps buckets key ps = some v →
        ∃ q ∈ p :: ps, ∃ b, (maps.node q).bucket = some b ∧ (buckets b).record key = some v := by
      intro h
      obtain ⟨q, hq, hb⟩ := exists_of_localRecord h
      exact ⟨q, List.mem_cons_of_mem p hq, hb⟩
    unfold localRecord at h
    split at h
    · split at h
      · exact hrest h
      · next b hb =>
        rcases Option.or_eq_some_iff.mp h with hr | ⟨-, hr⟩
        · exact ⟨p, List.mem_cons_self, b, hb, hr⟩
        · exact hrest hr
    · exact hrest h

theorem localRecord_ne_none (hme : hasFlag (maps.node p).flags rmNodeMe = true)
    (hb : (maps.node p).bucket = some b) (hr : (buckets b).record key = some v) :
    ∀ {ps : List Nat}, p ∈ ps → localRecord maps buckets key ps ≠ none
  | q :: ps, hp => by
    unfold localRecord
    rcases List.mem_cons.mp hp with rfl | hp
    · rw [if_pos hme, hb]
      simp [hr]
    · have ih := localRecord_ne_none hme hb hr hp
      split
      · split
        · exact ih
        · simp [Option.or_eq_none_iff, ih]
      · exact ih

theorem localRecord_congr : ∀ {ps : List Nat},
    (∀ b, (buckets' b).record key = (buckets b).record key) →
    localRecord maps buckets' key ps = localRecord maps buckets key ps
  | [], _ => rfl
  | p :: ps, h => by
    unfold localRecord
    rw [localRecord_congr h]
    simp only [h]

end

/-! ## chain への書き込み -/

section

variable {maps : RangeMaps} {write : BeeBucket → Bool → Int × BeeBucket} {ok : Nat → Bool}
  {key : List UInt8} {b : Nat}

theorem beeDbWriteLocal_preserves {P : BeeBucket → Prop} (hP : ∀ b ok, P b → P (write b ok).2) :
    ∀ (ps : List Nat) (r : Int) (buckets : Buckets), P (buckets b) →
      P ((beeDbWriteLocal maps write ok r ps buckets).2 b)
  | [], r, buckets, h => h
  | p :: ps, r, buckets, h => by
    unfold beeDbWriteLocal
    split
    · exact beeDbWriteLocal_preserves hP ps r buckets h
    · next c _ =>
      have hup : P (Function.update buckets c (write (buckets c) (ok p)).2 b) := by
        by_cases hb : b = c
        · subst hb
          rw [Function.update_self]
          exact hP _ _ h
        · rwa [Function.update_of_ne hb]
      simp only
      split
      · exact hup
      · exact beeDbWriteLocal_preserves hP ps _ _ hup

theorem beeDbWriteLocal_all {Q : BeeBucket → Prop}
    (hQ : ∀ b ok, (write b ok).1 = 0 → Q (write b ok).2) :
    ∀ (ps : List Nat) (r : Int) (buckets : Buckets),
      (beeDbWriteLocal maps write ok r ps buckets).1 = 0 →
      (Q (buckets b) ∨ ∃ p ∈ ps, (maps.node p).bucket = some b) →
      Q ((beeDbWriteLocal maps write ok r ps buckets).2 b)
  | [], r, buckets, _, hb => by
    rcases hb with hb | ⟨p, hp, -⟩
    · exact hb
    · cases hp
  | p :: ps, r, buckets, h0, hb => by
    unfold beeDbWriteLocal at h0 ⊢
    split
    · next hnone =>
      simp only [hnone] at h0
      refine beeDbWriteLocal_all hQ ps r buckets h0 (hb.imp_right ?_)
      rintro ⟨q, hq, hqb⟩
      rcases List.mem_cons.mp hq with rfl | hq
      · rw [hnone] at hqb
        cases hqb
      · exact ⟨q, hq, hqb⟩
    · next c hc =>
      simp only [hc] at h0
      by_cases hr : (write (buckets c) (ok p)).1 = 0
      · simp only [hr, ne_eq, not_true_eq_false, if_false] at h0 ⊢
        refine beeDbWriteLocal_all hQ ps 0 _ h0 ?_
        by_cases hbc : b = c
        · subst hbc
          rw [Function.update_self]
          exact Or.inl (hQ _ _ hr)
        · rw [Function.update_of_ne hbc]
          refine hb.imp_right ?_
          rintro ⟨q, hq, hqb⟩
          rcases List.mem_cons.mp hq with rfl | hq
          · rw [hc, Option.some.injEq] at hqb
            exact absurd hqb.symm hbc
          · exact ⟨q, hq, hqb⟩
      · simp only [ne_eq, hr, not_false_eq_true, if_true] at h0

end

/-! ## 要求の処理 -/

section

variable {node : BeeNode} {buckets : Buckets} {io : WriteIo} {ctx : BeeServiceCtx} {needSync : Bool}
  {key k : List UInt8} {b : Nat} {req : DbRequest}

theorem rangeNodes_none (maps : RangeMaps) : rangeNodes maps none = [] := by
  unfold rangeNodes
  cases maps.mallocs <;> rfl

section

variable {writeLocal : (Nat → Bool) → List Nat → Buckets → Int × Buckets} {op : Int}

theorem beeDbWrite_buckets (hnil : (writeLocal io.kcdbOk [] buckets).2 = buckets) :
    (beeDbWrite node io writeLocal op buckets ctx needSync).buckets
      = (writeLocal io.kcdbOk (node.chain ctx.mapName ctx.key) buckets).2 := by
  unfold beeDbWrite BeeNode.chain
  cases node.findNodes ctx.mapName ctx.key with
  | none =>
    rw [rangeNodes_none]
    exact hnil.symm
  | some p =>
    simp only
    split
    · rfl
    · split <;> rfl

theorem beeDbWrite_ok (h : (beeDbWrite node io writeLocal op buckets ctx needSync).r = esqOk) :
    (writeLocal io.kcdbOk (node.chain ctx.mapName ctx.key) buckets).1 = 0 := by
  unfold beeDbWrite at h
  unfold BeeNode.chain
  cases hp : node.findNodes ctx.mapName ctx.key with
  | none =>
    rw [hp] at h
    exact absurd h esqErrorNotfound_ne_zero
  | some p =>
    simp only [hp] at h
    split at h
    · next hne => exact absurd h hne
    · next he => exact not_not.mp he

end

theorem beeDbSet_buckets : (beeDbSet node io buckets ctx needSync).buckets
    = (beeDbSetLocal node.maps ctx io.kcdbOk (node.chain ctx.mapName ctx.key) buckets).2 :=
  beeDbWrite_buckets rfl

theorem beeDbDel_buckets : (beeDbDel node io buckets ctx needSync).buckets
    = (beeDbDelLocal node.maps ctx io.kcdbOk (node.chain ctx.mapName ctx.key) buckets).2 :=
  beeDbWrite_buckets rfl

theorem dbStep_record (h : ¬ req.Writes k) :
    (dbStep node buckets req b).record k = (buckets b).record k := by
  unfold dbStep
  cases hop : req.op with
  | get malloc => rfl
  | set io needSync =>
    have hk : k ≠ req.ctx.key := fun hk => h ⟨fun _ => by simp [hop], hk.symm⟩
    simp only [beeDbSet_buckets]
    exact beeDbWriteLocal_preserves (P := fun b' => b'.record k = (buckets b).record k)
      (fun b ok hb => (bucketWrite_set.others hk).trans hb) _ _ _ rfl
  | del io needSync =>
    have hk : k ≠ req.ctx.key := fun hk => h ⟨fun _ => by simp [hop], hk.symm⟩
    simp only [beeDbDel_buckets]
    exact beeDbWriteLocal_preserves (P := fun b' => b'.record k = (buckets b).record k)
      (fun b ok hb => (bucketWrite_del.others hk).trans hb) _ _ _ rfl

theorem dbStep_attached (req : DbRequest) (i : Fin 2) :
    ((dbStep node buckets req b).kcdb i).isSome = ((buckets b).kcdb i).isSome := by
  unfold dbStep
  cases req.op with
  | get malloc => rfl
  | set io needSync =>
    simp only [beeDbSet_buckets]
    exact beeDbWriteLocal_preserves (P := fun b' => (b'.kcdb i).isSome = ((buckets b).kcdb i).isSome)
      (fun b ok hb => (bucketWrite_set.attached i).trans hb) _ _ _ rfl
  | del io needSync =>
    simp only [beeDbDel_buckets]
    exact beeDbWriteLocal_preserves (P := fun b' => (b'.kcdb i).isSome = ((buckets b).kcdb i).isSome)
      (fun b ok hb => (bucketWrite_del.attached i).trans hb) _ _ _ rfl

/-- bucket が見せる record は、無いか、`timeval` だけである。 -/
def BeeBucket.Gone (b : BeeBucket) (key : List UInt8) : Prop :=
  ∀ v, b.record key = some v → v.length ≤ timevalSize

theorem gone_beeBucketDel {bucket : BeeBucket} {ok : Bool}
    (h : (beeBucketDel bucket ctx.key ctx.timeval ok).1 = 0) :
    (beeBucketDel bucket ctx.key ctx.timeval ok).2.Gone ctx.key := by
  intro v hv
  rw [record_beeBucketDel h hv]
  exact List.length_take_le _ _

theorem dbStep_gone (h : ¬ req.Sets key) (hg : (buckets b).Gone key) :
    (dbStep node buckets req b).Gone key := by
  by_cases hw : req.Writes key
  · obtain ⟨hget, hkey⟩ := hw
    unfold dbStep
    cases hop : req.op with
    | get malloc => exact hg
    | set io needSync => exact absurd ⟨⟨io, needSync, hop⟩, hkey⟩ h
    | del io needSync =>
      simp only [beeDbDel_buckets]
      subst hkey
      refine beeDbWriteLocal_preserves (P := fun b' => b'.Gone req.ctx.key) (fun b ok hb => ?_)
        _ _ _ hg
      by_cases hr : (beeBucketDel b req.ctx.key req.ctx.timeval ok).1 = 0
      · exact gone_beeBucketDel hr
      · rwa [bucketWrite_del.failed hr]
  · intro v hv
    rw [dbStep_record hw] at hv
    exact hg v hv

theorem dbRun_record : ∀ (reqs : List DbRequest) (buckets : Buckets),
    (∀ q ∈ reqs, ¬ q.Writes k) → (dbRun node buckets reqs b).record k = (buckets b).record k
  | [], _, _ => rfl
  | q :: reqs, buckets, h => by
    have ih := dbRun_record reqs (dbStep node buckets q) fun r hr => h r (List.mem_cons_of_mem q hr)
    exact ih.trans (dbStep_record (h q List.mem_cons_self))

theorem dbRun_attached (i : Fin 2) : ∀ (reqs : List DbRequest) (buckets : Buckets),
    ((dbRun node buckets reqs b).kcdb i).isSome = ((buckets b).kcdb i).isSome
  | [], _ => rfl
  | q :: reqs, buckets => (dbRun_attached i reqs (dbStep node buckets q)).trans (dbStep_attached q i)

theorem dbRun_gone : ∀ (reqs : List DbRequest) (buckets : Buckets),
    (∀ q ∈ reqs, ¬ q.Sets key) → (buckets b).Gone key → (dbRun node buckets reqs b).Gone key
  | [], _, _, hg => hg
  | q :: reqs, buckets, h, hg => dbRun_gone reqs (dbStep node buckets q)
    (fun r hr => h r (List.mem_cons_of_mem q hr)) (dbStep_gone (h q List.mem_cons_self) hg)

/-- **成功した SET の後は、chain の bucket はどれも書いた record を見せる。** -/
theorem record_beeDbSet (h : (beeDbSet node io buckets ctx needSync).r = esqOk) {p : Nat}
    (hp : p ∈ node.chain ctx.mapName ctx.key) (hb : (node.maps.node p).bucket = some b) :
    ((beeDbSet node io buckets ctx needSync).buckets b).record ctx.key
      = if ((buckets b).kcdb 0).isSome then some ctx.setRecord else none := by
  have h0 := beeDbWrite_ok h
  have hat : (((beeDbSet node io buckets ctx needSync).buckets b).kcdb 0).isSome
      = ((buckets b).kcdb 0).isSome := dbStep_attached ⟨.set io needSync, ctx⟩ 0
  rw [← hat, beeDbSet_buckets]
  refine beeDbWriteLocal_all (Q := fun b' => b'.record ctx.key
    = if (b'.kcdb 0).isSome then some ctx.setRecord else none) (fun b ok hr => ?_) _ _ _ h0
    (Or.inr ⟨p, hp, hb⟩)
  have hatt : ((beeBucketSet b ctx.key ctx.setRecord ok).2.kcdb 0).isSome = (b.kcdb 0).isSome :=
    bucketWrite_set.attached 0
  rw [record_beeBucketSet hr, hatt]

/-- **成功した DEL の後は、chain のどの bucket からも消えている。** -/
theorem gone_beeDbDel (h : (beeDbDel node io buckets ctx needSync).r = esqOk) {p : Nat}
    (hp : p ∈ node.chain ctx.mapName ctx.key) (hb : (node.maps.node p).bucket = some b) :
    ((beeDbDel node io buckets ctx needSync).buckets b).Gone ctx.key := by
  have h0 := beeDbWrite_ok h
  rw [beeDbDel_buckets]
  exact beeDbWriteLocal_all (Q := fun b' => b'.Gone ctx.key)
    (fun b ok hr => gone_beeBucketDel hr) _ _ _ h0 (Or.inr ⟨p, hp, hb⟩)

end

/-! ## GET -/

section

variable {node : BeeNode} {buckets : Buckets} {ctx : BeeServiceCtx}
  {malloc : Option ReplyFromBeeToPony2} {v : List UInt8}

def BeeNode.answer (node : BeeNode) (buckets : Buckets) (name : CStr) (key : List UInt8) :
    Option (List UInt8) :=
  localRecord node.maps buckets key (node.chain name key)

theorem beeDbGet_param (h : ctx.header.resultBufSize ≤ 0) :
    beeDbGet node buckets malloc ctx
      = (esqErrorParam, (ctx.setReplyPtr none).exx esqErrorParam) := by
  simp [beeDbGet, h]

theorem beeDbGet_memory (h : 0 < ctx.header.resultBufSize) :
    beeDbGet node buckets none ctx
      = (esqErrorMemory, (ctx.setReplyPtr none).exx esqErrorMemory) := by
  simp [beeDbGet, not_le.mpr h]

/-- **`timeval` より長い record が見つかれば、それを返す。** -/
theorem beeDbGet_found (mem : ReplyFromBeeToPony2) (h : 0 < ctx.header.resultBufSize)
    (hv : node.answer buckets ctx.mapName ctx.key = some v) (hlen : timevalSize < v.length) :
    beeDbGet node buckets (some mem) ctx
      = (esqOk, ctx.setReplyPtr (some
          { returnCode := esqOk
            resultLen := v.length - timevalSize
            result := overwrite mem.result (v.take ctx.header.resultBufSize.toNat) })) := by
  unfold BeeNode.answer BeeNode.chain at hv
  unfold beeDbGet
  cases hp : node.findNodes ctx.mapName ctx.key with
  | none =>
    rw [hp, rangeNodes_none] at hv
    cases hv
  | some p =>
    rw [hp] at hv
    simp only [not_le.mpr h, if_false, beeDbGetLocal_eq, hv, Option.map_some, not_le.mpr hlen]

/-- **record が無いか `timeval` だけのときは、`reply_ptr` の先頭は `malloc` したままである。** -/
theorem beeDbGet_notfound (mem : ReplyFromBeeToPony2) (h : 0 < ctx.header.resultBufSize)
    (hv : ∀ v, node.answer buckets ctx.mapName ctx.key = some v → v.length ≤ timevalSize) :
    ∃ result, beeDbGet node buckets (some mem) ctx
      = (esqErrorNotfound,
        (ctx.setReplyPtr (some { mem with result })).exx esqErrorNotfound) := by
  unfold BeeNode.answer BeeNode.chain at hv
  unfold beeDbGet
  cases hp : node.findNodes ctx.mapName ctx.key with
  | none =>
    refine ⟨mem.result, ?_⟩
    simp only [not_le.mpr h, if_false]
  | some p =>
    rw [hp] at hv
    cases hr : localRecord node.maps buckets ctx.key (rangeNodes node.maps (some p)) with
    | none =>
      refine ⟨mem.result, ?_⟩
      simp only [not_le.mpr h, if_false, beeDbGetLocal_eq, hr, Option.map_none]
    | some v =>
      refine ⟨overwrite mem.result (v.take ctx.header.resultBufSize.toNat), ?_⟩
      have hle := hv v hr
      simp only [not_le.mpr h, if_false, beeDbGetLocal_eq, hr, Option.map_some, hle, if_true]

end

/-! ## register -/

def BeeServiceCtx.Carries (ctx : BeeServiceCtx) (v : List UInt8) : Prop :=
  ∃ rp, ctx.replyPtr = some rp ∧ rp.returnCode = esqOk ∧ rp.resultLen = v.length ∧
    (rp.result.drop timevalSize).take v.length = v

/-- chain に、`kcdb[0]` のある bucket を持つ `RM_NODE_ME` の node がある。 -/
def BeeNode.Serves (node : BeeNode) (buckets : Buckets) (name : CStr) (key : List UInt8) : Prop :=
  ∃ p ∈ node.chain name key, hasFlag (node.maps.node p).flags rmNodeMe = true ∧
    ∃ b, (node.maps.node p).bucket = some b ∧ (buckets b).kcdb 0 ≠ none

def OnMap (name : CStr) (reqs : List DbRequest) : Prop := ∀ q ∈ reqs, q.ctx.mapName = name

/-- 一つの key についての、要求の列の後の GET の答え。`g` が GET の要求である。 -/
structure RegisterSpec (node : BeeNode) (buckets : Buckets) (name : CStr) (key : List UInt8) :
    Prop where
  /-- 成功した SET の後で、その key の SET も DEL も無いとき -/
  afterSet : ∀ (before after : List DbRequest) (w g : BeeServiceCtx) (io : WriteIo) (sync : Bool),
    OnMap name before → OnMap name after → w.mapName = name → g.mapName = name →
    w.key = key → g.key = key → w.data ≠ [] →
    (beeDbSet node io (dbRun node buckets before) w sync).r = esqOk →
    (∀ q ∈ after, ¬ q.Writes key) → timevalSize + w.data.length ≤ g.header.resultBufSize →
    ∀ malloc, ∃ r ctx, beeDbGet node
        (dbRun node buckets (before ++ ⟨.set io sync, w⟩ :: after)) malloc g = (r, ctx) ∧
      if malloc.isSome then r = esqOk ∧ ctx.Carries w.data else r = esqErrorMemory
  /-- 成功した DEL の後で、その key の SET が無いとき -/
  afterDel : ∀ (before after : List DbRequest) (w g : BeeServiceCtx) (io : WriteIo) (sync : Bool),
    OnMap name before → OnMap name after → w.mapName = name → g.mapName = name →
    w.key = key → g.key = key →
    (beeDbDel node io (dbRun node buckets before) w sync).r = esqOk →
    (∀ q ∈ after, ¬ q.Sets key) →
    ∀ malloc, (beeDbGet node
        (dbRun node buckets (before ++ ⟨.del io sync, w⟩ :: after)) malloc g).1
      = if g.header.resultBufSize ≤ 0 then esqErrorParam
        else if malloc.isSome then esqErrorNotfound else esqErrorMemory
  /-- 他の key の要求は答えを変えない -/
  others : ∀ (before after : List DbRequest) (g : BeeServiceCtx),
    OnMap name before → OnMap name after → g.mapName = name → g.key = key →
    (∀ q ∈ after, q.ctx.key ≠ key) →
    ∀ malloc, beeDbGet node (dbRun node buckets (before ++ after)) malloc g
      = beeDbGet node (dbRun node buckets before) malloc g

section

variable {node : BeeNode} {buckets : Buckets} {name : CStr} {key : List UInt8}

theorem BeeServiceCtx.setRecord_eq (ctx : BeeServiceCtx) :
    ctx.setRecord = ctx.timeval ++ ctx.data := List.take_add ..

theorem BeeServiceCtx.timeval_length {ctx : BeeServiceCtx} (h : ctx.data ≠ []) :
    ctx.timeval.length = timevalSize := by
  have hlen : timevalSize < ctx.tail.length := by
    by_contra hle
    refine h ?_
    unfold data
    rw [List.drop_eq_nil_of_le (not_lt.mp hle), List.take_nil]
  unfold timeval
  rw [List.length_take]
  omega

theorem dbRun_append (xs ys : List DbRequest) (buckets : Buckets) :
    dbRun node buckets (xs ++ ys) = dbRun node (dbRun node buckets xs) ys := List.foldl_append ..

theorem beeDbGet_congr {buckets' : Buckets} {ctx : BeeServiceCtx}
    (h : ∀ b, (buckets' b).record ctx.key = (buckets b).record ctx.key)
    (malloc : Option ReplyFromBeeToPony2) :
    beeDbGet node buckets' malloc ctx = beeDbGet node buckets malloc ctx := by
  unfold beeDbGet
  simp only [beeDbGetLocal_eq, localRecord_congr h]

theorem answer_afterSet {w : BeeServiceCtx} {io : WriteIo} {sync : Bool} {after : List DbRequest}
    (hserves : node.Serves buckets w.mapName w.key)
    (hok : (beeDbSet node io buckets w sync).r = esqOk) (hafter : ∀ q ∈ after, ¬ q.Writes w.key) :
    node.answer (dbRun node (beeDbSet node io buckets w sync).buckets after) w.mapName w.key
      = some w.setRecord := by
  obtain ⟨p, hp, hme, b, hb, hdb⟩ := hserves
  have hrec : ∀ {q c}, q ∈ node.chain w.mapName w.key → (node.maps.node q).bucket = some c →
      (dbRun node (beeDbSet node io buckets w sync).buckets after c).record w.key
        = if ((buckets c).kcdb 0).isSome then some w.setRecord else none := by
    intro q c hq hc
    rw [dbRun_record after _ hafter, record_beeDbSet hok hq hc]
  have hself := hrec hp hb
  rw [if_pos (Option.isSome_iff_ne_none.mpr hdb)] at hself
  obtain ⟨v, hv⟩ := Option.ne_none_iff_exists'.mp (localRecord_ne_none hme hb hself hp)
  have hv' : node.answer (dbRun node (beeDbSet node io buckets w sync).buckets after) w.mapName
      w.key = some v := hv
  obtain ⟨q, hq, c, hc, hcv⟩ := exists_of_localRecord hv
  rw [hrec hq hc] at hcv
  split at hcv
  · rw [hv', hcv]
  · cases hcv

theorem answer_afterDel {w : BeeServiceCtx} {io : WriteIo} {sync : Bool} {after : List DbRequest}
    (hok : (beeDbDel node io buckets w sync).r = esqOk) (hafter : ∀ q ∈ after, ¬ q.Sets w.key)
    {v : List UInt8}
    (hv : node.answer (dbRun node (beeDbDel node io buckets w sync).buckets after) w.mapName w.key
      = some v) : v.length ≤ timevalSize := by
  obtain ⟨q, hq, c, hc, hcv⟩ := exists_of_localRecord hv
  exact dbRun_gone after _ hafter (gone_beeDbDel hok hq hc) v hcv

theorem beeDbGet_carries {w g : BeeServiceCtx} (hdata : w.data ≠ [])
    (hsize : timevalSize + w.data.length ≤ g.header.resultBufSize)
    (hv : node.answer buckets g.mapName g.key = some w.setRecord)
    (mem : ReplyFromBeeToPony2) :
    ∃ ctx, beeDbGet node buckets (some mem) g = (esqOk, ctx) ∧ ctx.Carries w.data := by
  have htv := BeeServiceCtx.timeval_length hdata
  have hlen : w.setRecord.length = timevalSize + w.data.length := by
    rw [w.setRecord_eq, List.length_append, htv]
  have hpos : 0 < w.data.length := List.length_pos_iff.mpr hdata
  have hfull : w.setRecord.take g.header.resultBufSize.toNat = w.setRecord := by
    refine List.take_of_length_le ?_
    omega
  refine ⟨_, beeDbGet_found mem (by omega) hv (by omega), _, rfl, rfl, ?_, ?_⟩
  · show (w.setRecord.length : Int) - timevalSize = w.data.length
    omega
  · rw [hfull, overwrite, w.setRecord_eq, List.append_assoc, ← htv, List.drop_left,
      List.take_left]

/--
**どの key も register である。**

成功した SET の値は次の SET か DEL まで読め、成功した DEL の後は次の SET まで `ESQ_ERROR_NOTFOUND` に
なり、他の key の要求は答えを変えない。`result_buf_size` が正でない GET と `malloc` に失敗した GET は、
record を見ずに抜ける。
-/
theorem register_semantics (node : BeeNode) (buckets : Buckets) (name : CStr) (key : List UInt8)
    (hserves : node.Serves buckets name key) : RegisterSpec node buckets name key where
  afterSet before after w g io sync _ _ hwn hgn hwk hgk hdata hok hafter hsize malloc := by
    subst hwn hwk
    have hserves' : node.Serves (dbRun node buckets before) w.mapName w.key := by
      obtain ⟨p, hp, hme, b, hb, hdb⟩ := hserves
      refine ⟨p, hp, hme, b, hb, ?_⟩
      rw [← Option.isSome_iff_ne_none, dbRun_attached]
      exact Option.isSome_iff_ne_none.mpr hdb
    have hans := answer_afterSet hserves' hok hafter
    rw [dbRun_append]
    change ∃ r ctx, beeDbGet node
      (dbRun node (beeDbSet node io (dbRun node buckets before) w sync).buckets after) malloc g
        = (r, ctx) ∧ _
    rw [← hgn, ← hgk] at hans
    cases malloc with
    | none =>
      refine ⟨_, _, beeDbGet_memory ?_, rfl⟩
      simp only [timevalSize] at hsize
      omega
    | some mem =>
      obtain ⟨ctx, hget, hcar⟩ := beeDbGet_carries hdata hsize hans mem
      exact ⟨_, _, hget, rfl, hcar⟩
  afterDel before after w g io sync _ _ hwn hgn hwk hgk hok hafter malloc := by
    subst hwn hwk
    rw [dbRun_append]
    change (beeDbGet node
      (dbRun node (beeDbDel node io (dbRun node buckets before) w sync).buckets after) malloc g).1
        = _
    by_cases hsize : g.header.resultBufSize ≤ 0
    · rw [beeDbGet_param hsize, if_pos hsize]
    · rw [if_neg hsize]
      cases malloc with
      | none =>
        rw [beeDbGet_memory (not_le.mp hsize)]
        rfl
      | some mem =>
        obtain ⟨result, hget⟩ := beeDbGet_notfound mem (not_le.mp hsize) fun v hv => by
          rw [hgn, hgk] at hv
          exact answer_afterDel hok hafter hv
        rw [hget]
        rfl
  others before after g _ _ _ hgk hafter malloc := by
    rw [dbRun_append]
    refine beeDbGet_congr (fun b => ?_) malloc
    refine dbRun_record after _ fun q hq hw => ?_
    exact hafter q hq (hw.2.trans hgk)

end

/-! ## 例 -/

def Env.host : Env where
  inetAddr _ := 0
  osIpAddressIsMe _ := true
  beeServerIsMyPort _ := true
  esqBeeFindBucket _ _ _ _ := none

def sampleName : CStr := .ofBytes [97]

/--
名前 `a` の map に空の prefix の node を二つ足したもの。どちらも `RM_NODE_ME` で、同じ bucket に繋がる。
`sha256` は key `k` のときの値である。
-/
def sampleNode : BeeNode where
  sha256 _ := ⟨[0x82, 0x54, 0xc3, 0x29, 0xa9, 0x28, 0x50, 0xf6, 0xd5, 0x39, 0xdd, 0x37, 0x6f, 0x48,
    0x16, 0xee, 0x27, 0x64, 0x51, 0x7d, 0xa5, 0xe0, 0x23, 0x55, 0x14, 0xaf, 0x43, 0x31, 0x64, 0x48,
    0x0d, 0x7a], rfl⟩
  maps := rangeMapRun .init
    [.new sampleName,
      .addNode .host (some 100) sampleName ⟨[49, 46, 49, 46, 49, 46, 49], by decide⟩ 80 0
        ⟨[120], by decide⟩,
      .addNode .host (some 101) sampleName ⟨[49, 46, 49, 46, 49, 46, 50], by decide⟩ 80 0
        ⟨[120], by decide⟩,
      .flush sampleName,
      .bucketOnline ⟨7, 0, 0, []⟩ [97]]

def sampleBuckets (kcdb : Fin 2 → Option Kcdb) : Buckets :=
  fun _ => { rangeMapName := [97], hashStr := [], kcdb }

def sampleKcdb : Fin 2 → Option Kcdb
  | 0 => some fun key => if key = [107] then some (List.replicate 17 1) else none
  | 1 => none

def sampleRequest (data : List UInt8) (resultBufSize : Int) : BeeServiceCtx where
  header :=
    { rangeMapNameLen := 1, keyLen := 1, dataLen := data.length, resultBufSize }
  recvBuf := [97, 0, 107] ++ List.replicate 16 1 ++ data

def WriteIo.fine : WriteIo where
  kcdbOk _ := true
  forward _ := .sent

theorem sampleNode_serves :
    sampleNode.Serves (sampleBuckets fun _ => some .empty) sampleName [107] :=
  ⟨100, by decide +kernel, by decide +kernel, 7, by decide +kernel, nofun⟩

theorem sampleRequest_mapName (data : List UInt8) (n : Int) :
    (sampleRequest data n).mapName = sampleName := Subtype.ext rfl

theorem register_semantics_sample :
    ∃ ctx, beeDbGet sampleNode
        (dbRun sampleNode (sampleBuckets fun _ => some .empty)
          [⟨.set .fine true, sampleRequest [118] 0⟩]) (some ⟨-1, -1, []⟩) (sampleRequest [] 17)
      = (esqOk, ctx) ∧ ctx.Carries [118] := by
  have hreg := register_semantics sampleNode (sampleBuckets fun _ => some .empty) sampleName [107]
    sampleNode_serves
  have hset : (beeDbSet sampleNode .fine (sampleBuckets fun _ => some .empty)
      (sampleRequest [118] 0) true).r = esqOk := by decide +kernel
  obtain ⟨r, ctx, hget, hr⟩ := hreg.afterSet [] [] (sampleRequest [118] 0) (sampleRequest [] 17)
    .fine true (List.forall_mem_nil _) (List.forall_mem_nil _) (sampleRequest_mapName _ _)
    (sampleRequest_mapName _ _) (by decide) (by decide) (by decide) hset (List.forall_mem_nil _)
    (by decide) (some ⟨-1, -1, []⟩)
  rw [if_pos (Option.isSome_some)] at hr
  obtain ⟨rfl, hcar⟩ := hr
  exact ⟨ctx, hget, hcar⟩

/-- **`result_buf_size` が 0 の GET は、消えた key にも `ESQ_ERROR_PARAM` を返す。** -/
theorem get_after_del_param :
    sampleNode.Serves (sampleBuckets fun _ => some .empty) sampleName [107] ∧
      (beeDbDel sampleNode .fine (sampleBuckets fun _ => some .empty) (sampleRequest [] 0) true).r
        = esqOk ∧
      (beeDbGet sampleNode
        (dbRun sampleNode (sampleBuckets fun _ => some .empty)
          [⟨.del .fine true, sampleRequest [] 0⟩]) none (sampleRequest [] 0)).1 = esqErrorParam ∧
      esqErrorParam ≠ esqErrorNotfound :=
  ⟨sampleNode_serves, by decide +kernel, by decide +kernel, by decide⟩

end Esq
