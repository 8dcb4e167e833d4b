import Esq.Bee.Online
import Esq.Bee.Sync

/-!
# 同期の通信

送る側は終わりの `x` を付けたまま hash の文字列を送り、受ける側はその文字列で bucket を探す。
bucket の key に `x` は無いので、最初の record で必ず見つからず、そこで接続を閉じる。さらに送る側は、hash を
書いた長さを key の長さと比べるので、長さの異なる key では送る途中で失敗する。

したがって同期が目的を果たすのは、送る record が一つも無いときに限る（`sync_wire`）。
-/

namespace Esq

open Infra

/-! ## 目的 -/

/-- 一つの target に record を順に送る。失敗したらそこで止まる。 -/
def syncRecords (io : TargetIo) (name : List UInt8) :
    List (List UInt8 × List UInt8) → SyncTarget → Int × SyncTarget
  | [], p => (0, p)
  | (key, value) :: records, p =>
    match beeBucketSyncDataToTarget io name key value p with
    | (0, p) => syncRecords io name records p
    | (r, p) => (r, p)

/--
どの `write` と `read` も全ての byte を運ぶとき、record がそのまま届き、取り込む先 `b` が見つかる。
`fd` は送る側の socket、`ok` は受ける側の `kcdbset` の結果である。
-/
structure SyncDelivers (name : List UInt8) (target : SyncTarget)
    (records : List (List UInt8 × List UInt8)) (fd : Nat) (ok : Nat → Bool) (st : Bee) (b : Nat) :
    Prop where
  noError : (syncRecords (.full fd) name records target).1 = 0
  received : ∃ sessions st',
    beeDbStartMergeSprint (fun _ => true) ok st (syncRecords (.full fd) name records target).2.sent
      = .ok (sessions, st') ∧
    (sessions.map fun s => (s.rangeMapName, s.hashStr, s.key, s.value))
      = (records.map fun r => (name, target.hashStr, r.1, r.2)) ∧
    ∀ s ∈ sessions, s.bucket = some b

/-! ## 受け付けた target -/

section

variable {inetAddr : List UInt8 → Nat} {target : SyncTarget}

/-- 作ったばかりの target。hash の文字列は `x` で終わり、接続はまだ無い。 -/
structure SyncTarget.Fresh (p : SyncTarget) : Prop where
  mark : ∃ c ∈ p.hashStr, hashStringHandleTable c = .endMark
  socketFd : p.socketFd = -1
  sent : p.sent = []

theorem syncTargetOf_fresh {ip hash : List UInt8} {port : Int}
    (h : syncTargetOf inetAddr ip port hash = .ok target) : target.Fresh := by
  unfold syncTargetOf at h
  split at h
  · cases h
  · split at h
    · cases h
    · split at h
      · cases h
      · next hget =>
        split at h
        · cases h
        · split at h
          · cases h
          · cases h
            obtain ⟨⟨x⟩, -⟩ := getHashString_split hget
            exact ⟨⟨x.mark, x.mark_mem, x.mark_eq⟩, rfl, rfl⟩

theorem mem_mapM_ok {α β : Type} {f : α → Except String β} : ∀ {xs : List α} {ys : List β},
    xs.mapM f = .ok ys → ∀ y ∈ ys, ∃ x ∈ xs, f x = .ok y
  | [], ys, h, y, hy => by
    rw [List.mapM_nil] at h
    cases h
    cases hy
  | x :: xs, ys, h, y, hy => by
    rw [List.mapM_cons] at h
    obtain ⟨z, hz, h⟩ := bind_eq_ok.mp h
    obtain ⟨zs, hzs, h⟩ := bind_eq_ok.mp h
    cases h
    rcases List.mem_cons.mp hy with rfl | hy
    · exact ⟨x, List.mem_cons_self, hz⟩
    · obtain ⟨w, hw, hf⟩ := mem_mapM_ok hzs y hy
      exact ⟨w, List.mem_cons_of_mem _ hw, hf⟩

theorem mem_crossLink : ∀ {groups : List (List SyncTarget)} {p : SyncTarget},
    p ∈ (crossLink groups target).flatten → p = target ∨ p ∈ groups.flatten
  | [], p, h => by simpa [crossLink] using h
  | g :: gs, p, h => by
    rw [crossLink] at h
    split at h
    · simp only [List.flatten_cons, List.mem_append, List.mem_singleton] at h ⊢
      rcases h with (h | h) | h
      · exact Or.inr (Or.inl h)
      · exact Or.inl h
      · exact Or.inr (Or.inr h)
    · simp only [List.flatten_cons, List.mem_append] at h ⊢
      rcases h with h | h
      · exact Or.inr (Or.inl h)
      · rcases mem_crossLink h with h | h
        · exact Or.inl h
        · exact Or.inr (Or.inr h)

theorem mem_crossLinks {targets : List SyncTarget} {p : SyncTarget}
    (h : p ∈ (beeCreateTargetCrossLinks targets).flatten) : p ∈ targets := by
  have hfold : ∀ (ts : List SyncTarget) (groups : List (List SyncTarget)),
      p ∈ (ts.foldl crossLink groups).flatten → p ∈ ts ∨ p ∈ groups.flatten := by
    intro ts
    induction ts with
    | nil => exact fun _ hp => Or.inr hp
    | cons t ts ih =>
      intro groups hp
      rcases ih (crossLink groups t) hp with hp | hp
      · exact Or.inl (List.mem_cons_of_mem t hp)
      · rcases mem_crossLink hp with rfl | hp
        · exact Or.inl List.mem_cons_self
        · exact Or.inr hp
  rcases hfold targets [] h with h | h
  · exact h
  · cases h

theorem createBucketSyncSession_fresh {rangeMap hash : List UInt8}
    {triads : List (List UInt8 × Int × List UInt8)} {s : SyncSession}
    (h : createBucketSyncSession inetAddr rangeMap hash triads = .ok s)
    (ht : target ∈ s.groups.flatten) : target.Fresh := by
  unfold createBucketSyncSession at h
  split at h
  · cases h
  · split at h
    · cases h
    · split at h
      · cases h
      · split at h
        · cases h
        · obtain ⟨_, -, h⟩ := bind_eq_ok.mp h
          obtain ⟨targets, htargets, h⟩ := bind_eq_ok.mp h
          split at h
          · cases h
            obtain ⟨⟨ip, port, hash⟩, -, hx⟩ := mem_mapM_ok htargets target (mem_crossLinks ht)
            exact syncTargetOf_fresh hx
          · cases h

end

/-! ## 受ける側 -/

section

variable {st st' : Bee} {session x : MergeSession} {xs : List MergeSession}

theorem bucket_esqBucketMergeItem (st : Bee) (hb : session.bucket = none) (ok : Bool) :
    (esqBucketMergeItem st session ok).2.2.bucket = mergeBucket st session ∧
      (esqBucketMergeItem st session ok).2.2.hashStr = session.hashStr := by
  unfold esqBucketMergeItem
  split
  · next hf => exact ⟨hb.trans hf.symm, rfl⟩
  · next b hf => exact ⟨hf.symm, rfl⟩

theorem mergeBucket_of_mark (hst : st.AllNamed) (hb : session.bucket = none) {c : UInt8}
    (hc : c ∈ session.hashStr) (hmark : hashStringHandleTable c = .endMark) :
    mergeBucket st session = none := by
  simp only [mergeBucket, hb]
  split
  · rfl
  · refine hst.rbFind_of_mark ⟨Nat.two_pow_pos 32, ?_, ?_⟩ hc hmark
    · show -2 ^ 31 ≤ (0 : Int)
      decide
    · show (0 : Int) < 2 ^ 31
      decide

theorem mergeSprintLoop_first (hst : st.AllNamed) (hb : session.bucket = none)
    {malloc ok : Nat → Bool} {fuel : Nat} {header : HeaderFromPonyToBee} {stream : List UInt8}
    (h : mergeSprintLoop malloc ok fuel st session header stream = .ok (x :: xs, st')) {c : UInt8}
    (hc : c ∈ x.hashStr) (hmark : hashStringHandleTable c = .endMark) : x.bucket = none := by
  cases fuel with
  | zero => simp [mergeSprintLoop] at h
  | succ fuel =>
    rw [mergeSprintLoop] at h
    split at h
    · cases h
    · dsimp only at h
      split at h
      · cases h
      · split at h
        · cases h
        · split at h
          · cases h
          · have hfill : (session.fill header (stream.take
                (toInt32 header.frameSize).toNat)).bucket = none := hb
            generalize session.fill header (stream.take (toInt32 header.frameSize).toNat) = filled
              at h hfill
            -- 取り込もうとした frame は、取り込みが返した session である
            have hx : (esqBucketMergeItem st filled (ok fuel)).2.2 = x := by
              split at h
              · next heq =>
                rw [heq]
                split at h
                · cases h
                  rfl
                · obtain ⟨_, -, h⟩ := bind_eq_ok.mp h
                  cases h
                  rfl
              · next heq =>
                rw [heq]
                cases h
                rfl
            obtain ⟨hbucket, hhash⟩ := bucket_esqBucketMergeItem st hfill (ok fuel)
            rw [hx] at hbucket hhash
            rw [hbucket]
            exact mergeBucket_of_mark hst hfill (hhash ▸ hc) hmark

end

/-! ## 主定理 -/

theorem beeDbStartMergeSprint_nil (malloc ok : Nat → Bool) (st : Bee) :
    beeDbStartMergeSprint malloc ok st [] = .ok ([], st) := rfl

/--
**同期が目的を果たすのは、送る record が一つも無いときに限る。**

受ける側の node は、どの順に操作して得た状態でもよい。
-/
theorem sync_wire (inetAddr : List UInt8 → Nat) (rangeMap hash : List UInt8)
    (triads : List (List UInt8 × Int × List UInt8)) (s : SyncSession)
    (hs : createBucketSyncSession inetAddr rangeMap hash triads = .ok s) (target : SyncTarget)
    (ht : target ∈ s.groups.flatten) (records : List (List UInt8 × List UInt8)) (fd : Nat)
    (ok : Nat → Bool) (ops : List BeeOp) (b : Nat) :
    SyncDelivers rangeMap target records fd ok (beeRun .init ops) b ↔ records = [] := by
  have hfresh := createBucketSyncSession_fresh hs ht
  constructor
  · rintro ⟨-, sessions, st', hrecv, hmap, hfound⟩
    cases records with
    | nil => rfl
    | cons r records =>
      cases sessions with
      | nil => cases hmap
      | cons x xs =>
        have hhash : x.hashStr = target.hashStr := by
          have := (List.cons.inj hmap).1
          simp only [Prod.mk.injEq] at this
          exact this.2.1
        obtain ⟨c, hc, hmark⟩ := hfresh.mark
        rw [← hhash] at hc
        have hnone : x.bucket = none := by
          unfold beeDbStartMergeSprint at hrecv
          split at hrecv
          · cases hrecv
          · dsimp only at hrecv
            split at hrecv
            · cases hrecv
            · exact mergeSprintLoop_first (allNamed_run ops allNamed_init) rfl hrecv hc hmark
        have hsome := hfound x List.mem_cons_self
        rw [hnone] at hsome
        cases hsome
  · rintro rfl
    refine ⟨rfl, [], beeRun .init ops, ?_, rfl, fun _ hx => by cases hx⟩
    show beeDbStartMergeSprint _ ok (beeRun .init ops) target.sent = _
    rw [hfresh.sent]
    exact beeDbStartMergeSprint_nil _ ok _

def sampleShift : BeeOp :=
  .shiftMemBucket { malloc := some 0, kcdbnew := true, kcdbopen := true, rotate := id } [97] [120]

/-- 何も送らない同期。 -/
theorem sync_wire_nil :
    SyncDelivers [97] .sample [] 3 (fun _ => true) (beeRun .init [sampleShift]) 0 :=
  (sync_wire (fun _ => 0) [97] [120] [([49, 46, 49, 46, 49, 46, 49], 80, [120])]
    { rangeMapName := [97], hashStr := [120], groups := [[.sample]] } rfl .sample
    (by simp) [] 3 (fun _ => true) [sampleShift] 0).mpr rfl

/--
一つの record がそのまま届いても、開いている bucket は見つからない。key が hash の文字列より長ければ、
送る側がすでに失敗する。
-/
theorem sync_bucket_not_found :
    ((beeRun .init [sampleShift]).online = [0] ∧
      ((beeRun .init [sampleShift]).bucket 0).key = ([97], [], 0, 0)) ∧
    ¬ SyncDelivers [97] .sample [([1], timevalOf 1)] 3 (fun _ => true)
      (beeRun .init [sampleShift]) 0 ∧
    (syncRecords (.full 3) [97] [([1, 2], timevalOf 1)] .sample).1 = -1 := by
  refine ⟨by decide +kernel, ?_, by decide +kernel⟩
  rintro ⟨-, sessions, st', hrecv, -, hfound⟩
  have hdecoded : (beeDbStartMergeSprint (fun _ => true) (fun _ => true)
      (beeRun .init [sampleShift])
      (syncRecords (.full 3) [97] [([1], timevalOf 1)] .sample).2.sent).toOption.map Prod.fst
      = some [{ rangeMapName := [97], hashStr := [120], key := [1], value := timevalOf 1 }] := by
    decide +kernel
  rw [hrecv] at hdecoded
  cases hdecoded
  have hsome := hfound _ List.mem_cons_self
  cases hsome

end Esq
