import Esq.Bee.CrossLinks
import Esq.Bee.SyncWire
import Esq.RangeMap.Dump

/-!
# target の領域

`bee/mkc.c` の `bee_mkccb_create_bucket_sync_session` が `bucket_sync_target_t` に写す prefix の長さ。

元の bucket の hash の文字列は 32 byte より短いことを調べられるが、target の文字列の長さの検査は `#if 0` で
外されている。`get_hash_string` は長さを限らないので、`hash_str_2_bin` と `memcpy` は領域を越えて書ける。

位置は LP64 のものである。
-/

namespace Esq

open Infra

/-! ## bucket_sync_target_t -/

def bucketSyncTargetSize : Nat := 128

def targetHashOffset : Nat := 20

def targetHashSize : Nat := hashValueLength

def targetHashStrOffset : Nat := 80

def targetHashStrSize : Nat := hashValueLength + 8

/-- `bee_db_start_merge_sprint0` が受ける hash の文字列の長さの上限。 -/
def mergeHashStrMax : Nat := hashValueLength * 2

/-- `offset` から `size` byte の欄に `bytes` を写しても、後ろの欄は変わらない。 -/
def SparesLater (offset size : Nat) (bytes : List UInt8) : Prop :=
  ∀ mem : List UInt8, mem.length = bucketSyncTargetSize →
    (splice mem offset bytes).drop (offset + size) = mem.drop (offset + size)

/-- target に写した prefix は、どちらも欄に収まり、受ける側の上限を越えない。 -/
structure TargetIntact (p : SyncTarget) : Prop where
  hash : p.hash.length ≤ targetHashSize
  hashLater : SparesLater targetHashOffset targetHashSize p.hash
  hashStr : p.hashStr.length ≤ targetHashStrSize
  hashStrLater : SparesLater targetHashStrOffset targetHashStrSize p.hashStr
  receiver : p.hashStr.length ≤ mergeHashStrMax

/-! ## 欄 -/

section

variable {offset size : Nat} {bytes : List UInt8}

theorem sparesLater_of_le (hoff : offset ≤ bucketSyncTargetSize) (h : bytes.length ≤ size) :
    SparesLater offset size bytes := by
  intro mem hmem
  have htake : (mem.take offset ++ bytes).length = offset + bytes.length := by
    rw [List.length_append, List.length_take]
    omega
  unfold splice
  rw [List.drop_append, List.drop_eq_nil_of_le (by omega), List.nil_append, htake, List.drop_drop,
    show offset + bytes.length + (offset + size - (offset + bytes.length)) = offset + size by omega]

theorem sparesLater_iff (h : offset + size < bucketSyncTargetSize) :
    SparesLater offset size bytes ↔ bytes.length ≤ size := by
  refine ⟨fun hs => ?_, sparesLater_of_le (by omega)⟩
  by_contra hlt
  have hlt : size < bytes.length := by omega
  -- 溢れる byte と違う byte で埋めた memory を見る。
  have hmem := hs (List.replicate bucketSyncTargetSize (bytes[size] + 1)) List.length_replicate
  have hget := congrArg (·[0]?) hmem
  have htake : ((List.replicate bucketSyncTargetSize (bytes[size] + 1)).take offset).length
      = offset := by
    rw [List.length_take, List.length_replicate]
    omega
  have hleft : (splice (List.replicate bucketSyncTargetSize (bytes[size] + 1)) offset
      bytes)[offset + size]? = some bytes[size] := by
    unfold splice
    rw [List.getElem?_append_left (by rw [List.length_append, htake]; omega),
      List.getElem?_append_right (by omega), htake, Nat.add_sub_cancel_left,
      List.getElem?_eq_getElem hlt]
  have hright : (List.replicate bucketSyncTargetSize (bytes[size] + 1))[offset + size]?
      = some (bytes[size] + 1) := List.getElem?_replicate_of_lt h
  simp only [List.getElem?_drop, Nat.add_zero] at hget
  rw [hleft, hright, Option.some.injEq] at hget
  have hnat := congrArg UInt8.toNat hget
  rw [UInt8.toNat_add, show (1 : UInt8).toNat = 1 from rfl] at hnat
  omega

end

/-! ## 受け付けた target -/

section

variable {inetAddr : List UInt8 → Nat} {p : SyncTarget}

theorem syncTargetOf_length {ip hash : List UInt8} {port : Int}
    (h : syncTargetOf inetAddr ip port hash = .ok p) :
    p.hashStr = hash ∧ p.hash.length = (hash.length - 1) / 2 := by
  unfold syncTargetOf at h
  split at h
  · cases h
  split at h
  · cases h
  split at h
  · cases h
  next hget =>
    split at h
    · cases h
    next hcheck =>
      split at h
      · cases h
      next bin hbin =>
        cases h
        refine ⟨rfl, ?_⟩
        rw [hashStr2Bin_length _ hbin, List.length_take]
        omega

theorem targetIntact_iff {ip hash : List UInt8} {port : Int}
    (h : syncTargetOf inetAddr ip port hash = .ok p) :
    TargetIntact p ↔ hash.length ≤ targetHashStrSize := by
  obtain ⟨hstr, hlen⟩ := syncTargetOf_length h
  constructor
  · intro hp
    rw [← hstr]
    exact hp.hashStr
  · intro hle
    have hbin : p.hash.length ≤ targetHashSize := by
      have : targetHashStrSize ≤ 2 * targetHashSize := by decide
      omega
    have hfit : p.hashStr.length ≤ targetHashStrSize := by rw [hstr]; exact hle
    exact ⟨hbin, (sparesLater_iff (by decide)).mpr hbin, hfit, (sparesLater_iff (by decide)).mpr hfit,
      hfit.trans (by decide)⟩

theorem mapM_ok_mem {α β : Type} {f : α → Except String β} : ∀ {xs : List α} {ys : List β},
    xs.mapM f = .ok ys → ∀ x ∈ xs, ∃ y ∈ ys, f x = .ok y
  | [], _, _, _, hx => (nomatch hx)
  | x :: xs, ys, h, z, hz => by
    rw [List.mapM_cons] at h
    obtain ⟨y, hy, h⟩ := bind_eq_ok.mp h
    obtain ⟨ys', hys, h⟩ := bind_eq_ok.mp h
    cases h
    rcases List.mem_cons.mp hz with rfl | hz
    · exact ⟨y, List.mem_cons_self, hy⟩
    · obtain ⟨w, hw, hf⟩ := mapM_ok_mem hys z hz
      exact ⟨w, List.mem_cons_of_mem _ hw, hf⟩

theorem crossLinks_perm (targets : List SyncTarget) :
    (beeCreateTargetCrossLinks targets).flatten.Perm targets := by
  have hfold : ∀ (ts : List SyncTarget) (groups : List (List SyncTarget)),
      (ts.foldl crossLink groups).flatten.Perm (groups.flatten ++ ts) := by
    intro ts
    induction ts with
    | nil =>
      intro groups
      rw [List.append_nil]
      exact List.Perm.refl _
    | cons t ts ih =>
      intro groups
      refine (ih _).trans ?_
      rw [crossLink_eq, List.append_cons]
      exact (insertGroup_perm _ t groups).append_right ts
  exact hfold targets []

theorem createBucketSyncSession_targets {rangeMap hash : List UInt8}
    {triads : List (List UInt8 × Int × List UInt8)} {s : SyncSession}
    (h : createBucketSyncSession inetAddr rangeMap hash triads = .ok s) :
    ∃ targets, (triads.mapM fun (ip, port, hash) => syncTargetOf inetAddr ip port hash)
      = .ok targets ∧ s.groups.flatten.Perm targets := by
  unfold createBucketSyncSession at h
  split at h
  · cases h
  split at h
  · cases h
  split at h
  · cases h
  split at h
  · cases h
  obtain ⟨_, _, h⟩ := bind_eq_ok.mp h
  obtain ⟨targets, htargets, h⟩ := bind_eq_ok.mp h
  split at h
  · cases h
    exact ⟨targets, htargets, crossLinks_perm targets⟩
  · cases h

/--
**`CreateBucketSyncSession` が受け付けた引数で、どの target の prefix も欄に収まるのは、どの target の hash の
文字列も `hash_str` の 40 byte 以下のときに限る。**
-/
theorem sync_targets_intact_iff (inetAddr : List UInt8 → Nat) (rangeMap hash : List UInt8)
    (triads : List (List UInt8 × Int × List UInt8)) (s : SyncSession)
    (hs : createBucketSyncSession inetAddr rangeMap hash triads = .ok s) :
    (∀ p ∈ s.groups.flatten, TargetIntact p) ↔
      ∀ t ∈ triads, t.2.2.length ≤ targetHashStrSize := by
  obtain ⟨targets, htargets, hperm⟩ := createBucketSyncSession_targets hs
  constructor
  · intro h t ht
    obtain ⟨p, hp, hf⟩ := mapM_ok_mem htargets t ht
    exact (targetIntact_iff hf).mp (h p (hperm.mem_iff.mpr hp))
  · intro h p hp
    obtain ⟨t, ht, hf⟩ := mem_mapM_ok htargets p (hperm.mem_iff.mp hp)
    exact (targetIntact_iff hf).mpr (h t ht)

/-- `1.1.1.1` の 80 番へ、hash の文字列 `str` の bucket を送る引数。 -/
def sampleTriads (str : List UInt8) : List (List UInt8 × Int × List UInt8) :=
  [(ascii "1.1.1.1", 80, str)]

def longHashStr : List UInt8 := List.replicate 40 48 ++ [120]

/-- `x` だけの文字列の target は欄に収まる。 -/
theorem sync_targets_intact_sample :
    ∃ s, createBucketSyncSession (fun _ => 0) (ascii "m") [120] (sampleTriads [120]) = .ok s ∧
      ∀ p ∈ s.groups.flatten, TargetIntact p := by
  obtain ⟨s, hs⟩ : ∃ s, createBucketSyncSession (fun _ => 0) (ascii "m") [120]
      (sampleTriads [120]) = .ok s := ⟨_, rfl⟩
  exact ⟨s, hs, (sync_targets_intact_iff _ _ _ _ s hs).mpr (by decide)⟩

/-- 40 個の数字と `x` の文字列は受け付けられ、`hash_str_length` の欄に書く。 -/
theorem sync_target_overflows :
    ∃ s, createBucketSyncSession (fun _ => 0) (ascii "m") [120] (sampleTriads longHashStr) = .ok s ∧
      s.groups.flatten.map (fun p => p.hashStr.length) = [41] ∧
      ¬ ∀ p ∈ s.groups.flatten, TargetIntact p := by
  obtain ⟨s, hs, hlen⟩ : ∃ s, createBucketSyncSession (fun _ => 0) (ascii "m") [120]
      (sampleTriads longHashStr) = .ok s ∧
      s.groups.flatten.map (fun p => p.hashStr.length) = [41] := ⟨_, rfl, rfl⟩
  refine ⟨s, hs, hlen, fun h => ?_⟩
  obtain ⟨p, hp, hl⟩ := List.mem_map.mp (show 41 ∈ s.groups.flatten.map _ by
    rw [hlen]
    exact List.mem_cons_self)
  have hle := (h p hp).hashStr
  rw [hl] at hle
  exact absurd hle (by decide)

end

end Esq
