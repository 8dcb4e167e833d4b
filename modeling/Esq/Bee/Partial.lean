import Esq.Bee.Register

/-!
# 失敗した書き込み

`bee_db_set` と `bee_db_del` は chain の bucket を先頭から順に書き、最初の失敗で抜ける。書いた分を
戻すことはしない。失敗した要求の後、失敗した node より前の bucket にはその書き込みがちょうど残り、
そこから先の bucket は元のままである。

`kcdb[1]` の無い bucket では、無い key を消すのも失敗である。同じ bucket に繋がる node が chain に二つ
あると、一つ目で消えて二つ目で失敗する。
-/

namespace Esq

open Infra

def applyWrite (maps : RangeMaps) (write : BeeBucket → Bool → Int × BeeBucket) (buckets : Buckets)
    (p : Nat) : Buckets :=
  match (maps.node p).bucket with
  | none => buckets
  | some b => Function.update buckets b (write (buckets b) true).2

def WriteResult.NotContacted (res : WriteResult) (io : WriteIo) : Prop :=
  ∀ p ∈ res.forwarded, (io.forward p).contacted = false

/--
失敗した要求が残すもの。`done` は書き終えた node、`rest` は失敗した node から先である。
`rest` が空なのは、bucket のある node が無いか、書き終えてから socket を開けなかったときである。
-/
structure LeftBehind (node : BeeNode) (io : WriteIo)
    (write : BeeBucket → Bool → Int × BeeBucket) (ctx : BeeServiceCtx) (buckets : Buckets)
    (res : WriteResult) (done rest : List Nat) : Prop where
  chain : node.chain ctx.mapName ctx.key = done ++ rest
  wrote : res.buckets = done.foldl (applyWrite node.maps write) buckets
  failed : ∀ p ps, rest = p :: ps → ∃ b, (node.maps.node p).bucket = some b ∧
    (write (res.buckets b) (io.kcdbOk p)).1 = res.r
  finished : rest = [] → (∀ p ∈ done, (node.maps.node p).bucket = none) ∨
    ∃ p ∈ done, p ∈ res.forwarded ∧ io.forward p = .noSocket
  untouched : ∀ b, (∀ p ∈ done, (node.maps.node p).bucket ≠ some b) → res.buckets b = buckets b
  others : ∀ b k, k ≠ ctx.key → (res.buckets b).record k = (buckets b).record k

section

variable {maps : RangeMaps} {write : BeeBucket → Bool → Int × BeeBucket} {ok : Nat → Bool}
  {key : List UInt8}

theorem foldl_applyWrite_of_ne {b : Nat} : ∀ (ps : List Nat) (buckets : Buckets),
    (∀ p ∈ ps, (maps.node p).bucket ≠ some b) →
    ps.foldl (applyWrite maps write) buckets b = buckets b
  | [], _, _ => rfl
  | p :: ps, buckets, h => by
    have ih := foldl_applyWrite_of_ne ps (applyWrite maps write buckets p)
      fun q hq => h q (List.mem_cons_of_mem p hq)
    rw [List.foldl_cons, ih]
    unfold applyWrite
    cases hc : (maps.node p).bucket with
    | none => rfl
    | some c =>
      refine Function.update_of_ne ?_ _ _
      rintro rfl
      exact h p List.mem_cons_self hc

/-- **loop は chain の先頭から書き、最初の失敗で止まる。** -/
theorem beeDbWriteLocal_cases (maps : RangeMaps) (ok : Nat → Bool) (hw : BucketWrite write key) :
    ∀ (ps : List Nat) (r : Int) (buckets : Buckets),
      (∃ r', beeDbWriteLocal maps write ok r ps buckets
          = (r', ps.foldl (applyWrite maps write) buckets) ∧
        (r' = 0 ∨ r' = r ∧ ∀ p ∈ ps, (maps.node p).bucket = none)) ∨
      ∃ done p rest b r', ps = done ++ p :: rest ∧ (maps.node p).bucket = some b ∧
        beeDbWriteLocal maps write ok r ps buckets
          = (r', done.foldl (applyWrite maps write) buckets) ∧
        (write (done.foldl (applyWrite maps write) buckets b) (ok p)).1 = r' ∧ r' ≠ 0
  | [], r, buckets => Or.inl ⟨r, rfl, Or.inr ⟨rfl, List.forall_mem_nil _⟩⟩
  | p :: ps, r, buckets => by
    unfold beeDbWriteLocal
    cases hb : (maps.node p).bucket with
    | none =>
      have hp : applyWrite maps write buckets p = buckets := by simp [applyWrite, hb]
      rcases beeDbWriteLocal_cases maps ok hw ps r buckets with
        ⟨r', he, hr⟩ | ⟨done, q, rest, c, r', rfl, hc, he, hf, hr⟩
      · refine Or.inl ⟨r', ?_, hr.imp_right fun hn => ?_⟩
        · rw [List.foldl_cons, hp]
          exact he
        · exact ⟨hn.1, List.forall_mem_cons.mpr ⟨hb, hn.2⟩⟩
      · refine Or.inr ⟨p :: done, q, rest, c, r', rfl, hc, ?_, ?_, hr⟩
        · rw [List.foldl_cons, hp]
          exact he
        · rwa [List.foldl_cons, hp]
    | some b =>
      by_cases hr0 : (write (buckets b) (ok p)).1 = 0
      · have hp : applyWrite maps write buckets p
            = Function.update buckets b (write (buckets b) (ok p)).2 := by
          simp [applyWrite, hb, hw.succeeded hr0]
        simp only [hr0, ne_eq, not_true_eq_false, if_false]
        rcases beeDbWriteLocal_cases maps ok hw ps 0 (applyWrite maps write buckets p) with
          ⟨r', he, hr⟩ | ⟨done, q, rest, c, r', rfl, hc, he, hf, hr⟩
        · rw [hp] at he
          refine Or.inl ⟨r', ?_, Or.inl (hr.elim id And.left)⟩
          rw [List.foldl_cons, hp]
          exact he
        · rw [hp] at he
          refine Or.inr ⟨p :: done, q, rest, c, r', rfl, hc, ?_, ?_, hr⟩
          · rw [List.foldl_cons, hp]
            exact he
          · rwa [List.foldl_cons]
      · refine Or.inr ⟨[], p, ps, b, (write (buckets b) (ok p)).1, rfl, hb, ?_, rfl, hr0⟩
        simp only [ne_eq, hr0, not_false_eq_true, if_true, hw.failed hr0, Function.update_eq_self,
          List.foldl_nil]

theorem beeDbSyncToRemote_failed {forward : Nat → Forward} : ∀ {ps : List Nat},
    (beeDbSyncToRemote maps forward ps).1 ≠ 0 →
    (∀ p ∈ (beeDbSyncToRemote maps forward ps).2, (forward p).contacted = false) →
    ∃ p ∈ ps, p ∈ (beeDbSyncToRemote maps forward ps).2 ∧ forward p = .noSocket
  | [], h, _ => absurd rfl h
  | p :: ps, h, hc => by
    have hskip : (beeDbSyncToRemote maps forward ps).1 ≠ 0 →
        (∀ q ∈ (beeDbSyncToRemote maps forward ps).2, (forward q).contacted = false) →
        ∃ q ∈ p :: ps, q ∈ (beeDbSyncToRemote maps forward ps).2 ∧ forward q = .noSocket := by
      intro h hc
      obtain ⟨q, hq, hf⟩ := beeDbSyncToRemote_failed h hc
      exact ⟨q, List.mem_cons_of_mem p hq, hf⟩
    unfold beeDbSyncToRemote at h hc ⊢
    split at h
    · next hme =>
      rw [if_pos hme] at hc ⊢
      exact hskip h hc
    · next hme =>
      rw [if_neg hme] at hc ⊢
      cases hb : (maps.node p).bucket with
      | some b =>
        simp only [hb] at h hc ⊢
        exact hskip h hc
      | none =>
        simp only [hb] at h hc ⊢
        -- 送り始めたのなら `hc` に反する
        cases hf : forward p with
        | noSocket =>
          refine ⟨p, List.mem_cons_self, ?_, hf⟩
          simp [beeDbForwardToNode, esqErrorLibcall]
        | broken =>
          have := hc p (by simp [hf, beeDbForwardToNode, esqErrorLibcall])
          simp [hf, Forward.contacted] at this
        | sent =>
          have := hc p (by simp [hf, beeDbForwardToNode, esqOk])
          simp [hf, Forward.contacted] at this

end

section

variable {node : BeeNode} {io : WriteIo} {buckets : Buckets} {ctx : BeeServiceCtx} {needSync : Bool}

theorem beeDbWrite_leftBehind {write : BeeBucket → Bool → Int × BeeBucket}
    (hw : BucketWrite write ctx.key) {r0 op : Int} {res : WriteResult}
    (hres : res = beeDbWrite node io (fun ok => beeDbWriteLocal node.maps write ok r0) op buckets ctx
      needSync) (hr : res.r ≠ esqOk) (hc : res.NotContacted io) :
    ∃ done rest, LeftBehind node io write ctx buckets res done rest := by
  have hbuckets : res.buckets = (beeDbWriteLocal node.maps write io.kcdbOk r0
      (node.chain ctx.mapName ctx.key) buckets).2 := by
    rw [hres]
    exact beeDbWrite_buckets rfl
  have hothers : ∀ b k, k ≠ ctx.key → (res.buckets b).record k = (buckets b).record k := by
    intro b k hk
    rw [hbuckets]
    exact beeDbWriteLocal_preserves (P := fun b' => b'.record k = (buckets b).record k)
      (fun b ok hb => (hw.others hk).trans hb) _ _ _ rfl
  -- 書き終えた node の列が決まれば、残りは決まる
  have hleft : ∀ done rest, node.chain ctx.mapName ctx.key = done ++ rest →
      res.buckets = done.foldl (applyWrite node.maps write) buckets →
      (∀ p ps, rest = p :: ps → ∃ b, (node.maps.node p).bucket = some b ∧
        (write (res.buckets b) (io.kcdbOk p)).1 = res.r) →
      (rest = [] → (∀ p ∈ done, (node.maps.node p).bucket = none) ∨
        ∃ p ∈ done, p ∈ res.forwarded ∧ io.forward p = .noSocket) →
      ∃ done rest, LeftBehind node io write ctx buckets res done rest := by
    intro done rest hchain hwrote hfailed hfinished
    refine ⟨done, rest, hchain, hwrote, hfailed, hfinished, fun b hb => ?_, hothers⟩
    rw [hwrote]
    exact foldl_applyWrite_of_ne done buckets hb
  have hchain : node.chain ctx.mapName ctx.key
      = rangeNodes node.maps (node.findNodes ctx.mapName ctx.key) := rfl
  cases hp : node.findNodes ctx.mapName ctx.key with
  | none =>
    rw [hp, rangeNodes_none] at hchain
    refine hleft [] [] hchain ?_ nofun fun _ => Or.inl (List.forall_mem_nil _)
    rw [hbuckets, hchain]
    rfl
  | some p =>
    rw [hp] at hchain
    have hdef := hres
    unfold beeDbWrite at hdef
    simp only [hp, ← hchain] at hdef
    rcases beeDbWriteLocal_cases node.maps io.kcdbOk hw (node.chain ctx.mapName ctx.key) r0
      buckets with
      ⟨r', he, hr'⟩ | ⟨done, q, rest, b, r', hsplit, hb, he, hf, hne⟩
    · rw [he] at hdef hbuckets
      refine hleft _ [] (List.append_nil _).symm hbuckets nofun fun _ => ?_
      by_cases h0 : r' = 0
      · subst h0
        cases needSync with
        | false =>
          simp only [ne_eq, not_true_eq_false, if_false, Bool.false_eq_true] at hdef
          rw [hdef] at hr
          exact absurd rfl hr
        | true =>
          simp only [ne_eq, not_true_eq_false, if_false, if_true] at hdef
          refine Or.inr ?_
          unfold WriteResult.NotContacted at hc
          rw [hdef] at hr hc ⊢
          exact beeDbSyncToRemote_failed hr hc
      · exact Or.inl ((hr'.resolve_left h0).2)
    · rw [he] at hdef hbuckets
      simp only [ne_eq, hne, not_false_eq_true, if_true] at hdef
      refine hleft done (q :: rest) hsplit hbuckets (fun p ps hps => ?_) nofun
      obtain ⟨rfl, -⟩ := List.cons.inj hps
      refine ⟨b, hb, ?_⟩
      rw [hbuckets, hdef]
      exact hf

/--
**失敗した書き込みは戻されない。**

どの相手にも送り始めずに失敗した要求の後、失敗した node より前の bucket にはその書き込みがちょうど残り、
失敗した bucket と、そこから先にだけある bucket は変わらない。
-/
theorem failed_write_leftBehind (node : BeeNode) (io : WriteIo) (buckets : Buckets)
    (ctx : BeeServiceCtx) (needSync : Bool) :
    ((beeDbSet node io buckets ctx needSync).r ≠ esqOk →
      (beeDbSet node io buckets ctx needSync).NotContacted io →
      ∃ done rest, LeftBehind node io (fun b => beeBucketSet b ctx.key ctx.setRecord) ctx buckets
        (beeDbSet node io buckets ctx needSync) done rest) ∧
    ((beeDbDel node io buckets ctx needSync).r ≠ esqOk →
      (beeDbDel node io buckets ctx needSync).NotContacted io →
      ∃ done rest, LeftBehind node io (fun b => beeBucketDel b ctx.key ctx.timeval) ctx buckets
        (beeDbDel node io buckets ctx needSync) done rest) :=
  ⟨fun hr hc => beeDbWrite_leftBehind bucketWrite_set rfl hr hc,
    fun hr hc => beeDbWrite_leftBehind bucketWrite_del rfl hr hc⟩

end

theorem failed_write_leftBehind_sample :
    ∃ done rest, LeftBehind sampleNode .fine
      (fun b => beeBucketDel b (sampleRequest [] 0).key (sampleRequest [] 0).timeval)
      (sampleRequest [] 0) (sampleBuckets sampleKcdb)
      (beeDbDel sampleNode .fine (sampleBuckets sampleKcdb) (sampleRequest [] 0) true) done rest := by
  have hf : (beeDbDel sampleNode .fine (sampleBuckets sampleKcdb) (sampleRequest [] 0) true).forwarded
      = [] := by decide +kernel
  refine (failed_write_leftBehind sampleNode .fine (sampleBuckets sampleKcdb) (sampleRequest [] 0)
    true).2 (by decide +kernel) ?_
  unfold WriteResult.NotContacted
  rw [hf]
  exact List.forall_mem_nil _

/-- **chain の node が二つとも同じ bucket に繋がっていると、DEL は key を消してから失敗する。** -/
theorem failed_del_removes :
    (beeDbDel sampleNode .fine (sampleBuckets sampleKcdb) (sampleRequest [] 0) true).r
        = esqErrorLibcall ∧
      (beeDbDel sampleNode .fine (sampleBuckets sampleKcdb) (sampleRequest [] 0) true).forwarded = [] ∧
      (sampleNode.maps.node 100).bucket = some 7 ∧
      100 ∈ sampleNode.chain (sampleRequest [] 0).mapName (sampleRequest [] 0).key ∧
      (sampleBuckets sampleKcdb 7).record [107] = some (List.replicate 17 1) ∧
      ((beeDbDel sampleNode .fine (sampleBuckets sampleKcdb) (sampleRequest [] 0) true).buckets
        7).record [107] = none := by
  refine ⟨?_, ?_, ?_, ?_, ?_, ?_⟩ <;> decide +kernel

end Esq
