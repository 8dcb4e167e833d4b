import Esq.Infra.Grouping
import Esq.Bee.SyncWorker
import Mathlib.Data.List.Flatten

/-!
# target を繋ぐ二つのリンク

`bee/instance.c` の `bee_create_target_cross_links` と、`bee/bucket.c` の
`bee_bucket_sync_data_to_target_list`、`bee_bucket_sync_db_item`。

target の配列に二つのリンクを通す。`same_hash_next` は hash の等しい target の列、
`next_hash_list` は列の先頭どうしの列である。ここでは配列の番号でリンクを表し、
C と同じ順に辿って書き換える。`Esq.Bee.Sync` の group の列は、これを辿った結果である。

* `targetCrossLinks_threaded` — 繋ぎ終えると、二つのリンクは hash で集めた group を通る
* `prefixGroups_map` — その group は `beeCreateTargetCrossLinks` のものである
* `syncDbItem_once` — 送る関数が 0 を返したなら、key の hash に当たる target にちょうど一度送った
* `sync_cross_links` — どの `write` も成功するときに 0 を返すのは、当たる target の hash の
  文字列がどれも key と同じ長さのときに限る
-/

namespace Esq

open Infra

/-! ## 繋ぐ -/

/-- 配列の番号で表した `same_hash_next` と `next_hash_list`。初めは `bzero` で全て NULL である。 -/
structure CrossLinks where
  sameHashNext : Nat → Option Nat := fun _ => none
  nextHashList : Nat → Option Nat := fun _ => none

def sameHash (target p : SyncTarget) : Bool :=
  if p.hash.length ≠ target.hash.length then false
  else if p.hash.length = 0 then true
  else p.hash = target.hash

/-- `bee_create_target_cross_links` の loop の一回分。`n` は `target_cnt` である。 -/
def CrossLinks.hook (ts : Nat → SyncTarget) (n : Nat) (L : CrossLinks) (i : Nat) : CrossLinks :=
  match seekFirst L.nextHashList (fun p => sameHash (ts i) (ts p)) n (some 0) with
  | none =>
    { L with
      nextHashList := Function.update L.nextHashList (seekLast L.nextHashList n 0) (some i) }
  | some p =>
    { L with
      sameHashNext := Function.update L.sameHashNext (seekLast L.sameHashNext n p) (some i) }

def targetCrossLinks (ts : Nat → SyncTarget) (n : Nat) : CrossLinks :=
  ((List.range (n - 1)).map (· + 1)).foldl (CrossLinks.hook ts n) {}

/-! ## 送る -/

/-- 送っている途中の配列。`calls` は `bee_bucket_sync_data_to_target` に渡した target である。 -/
structure SyncRun where
  targets : Nat → SyncTarget
  calls : List Nat := []

def SyncRun.send (io : Nat → TargetIo) (name key value : List UInt8) (st : SyncRun) (p : Nat) :
    Int × SyncRun :=
  let (r, t) := beeBucketSyncDataToTarget (io p) name key value (st.targets p)
  (r, { targets := Function.update st.targets p t, calls := st.calls ++ [p] })

/-- `bee_bucket_sync_data_to_target_list`。列が終わらなければ `none` になる。 -/
def syncToTargetList (L : CrossLinks) (io : Nat → TargetIo) (name key value : List UInt8) :
    Nat → Option Nat → SyncRun → Option (Int × SyncRun)
  | _, none, st => some (0, st)
  | 0, some _, _ => none
  | fuel + 1, some p, st =>
    let (r, st) := st.send io name key value p
    if r ≠ 0 then some (r, st)
    else syncToTargetList L io name key value fuel (L.sameHashNext p) st

def SyncTarget.takes (p : SyncTarget) (hash : HashT) : Bool :=
  if p.hash.length ≠ 0 then p.hash.isPrefixOf hash.buf else true

/-- `bee_bucket_sync_db_item` の loop。`n` は `target_cnt` である。 -/
def syncItemLoop (L : CrossLinks) (io : Nat → TargetIo) (hash : HashT)
    (name key value : List UInt8) (n : Nat) :
    Nat → Option Nat → SyncRun → Option (Int × SyncRun)
  | _, none, st => some (0, st)
  | 0, some _, _ => none
  | fuel + 1, some p, st =>
    if (st.targets p).takes hash then
      match syncToTargetList L io name key value n (some p) st with
      | none => none
      | some (r, st) =>
        if r ≠ 0 then some (r, st)
        else syncItemLoop L io hash name key value n fuel (L.nextHashList p) st
    else syncItemLoop L io hash name key value n fuel (L.nextHashList p) st

/-- `CreateBucketSyncSession` が繋いだ配列での `bee_bucket_sync_db_item`。 -/
def syncDbItem (hashOf : List UInt8 → HashT) (io : Nat → TargetIo) (ts : Nat → SyncTarget)
    (n : Nat) (name key value : List UInt8) : Option (Int × SyncRun) :=
  syncItemLoop (targetCrossLinks ts n) io (hashOf key) name key value n n (some 0) { targets := ts }

/-! ## リンクが通る group -/

/-- 先頭から `k` 個の target を hash で集めた group。 -/
def prefixGroups (ts : Nat → SyncTarget) (k : Nat) : List (List Nat) :=
  (List.range k).foldl (insertGroup fun i => (ts i).hash) []

structure Threads (L : CrossLinks) (gs : List (List Nat)) : Prop where
  heads : Linked L.nextHashList (some 0) (groupHeads gs)
  groups : ∀ g ∈ gs, Linked L.sameHashNext g.head? g

section

variable {ts : Nat → SyncTarget} {n k : Nat} {L : CrossLinks}

theorem prefixGroups_succ (ts : Nat → SyncTarget) (k : Nat) :
    prefixGroups ts (k + 1) = insertGroup (fun i => (ts i).hash) (prefixGroups ts k) k := by
  unfold prefixGroups
  rw [List.range_succ, List.foldl_append]
  rfl

theorem prefixGroups_grouped (ts : Nat → SyncTarget) (k : Nat) :
    Grouped (fun i => (ts i).hash) (prefixGroups ts k) := by
  induction k with
  | zero => exact grouped_nil _
  | succ k ih =>
    rw [prefixGroups_succ]
    exact ih.insert k

theorem prefixGroups_perm (ts : Nat → SyncTarget) (k : Nat) :
    (prefixGroups ts k).flatten.Perm (List.range k) := by
  induction k with
  | zero => exact List.Perm.refl _
  | succ k ih =>
    rw [prefixGroups_succ, List.range_succ]
    exact (insertGroup_perm _ k _).trans (ih.append_right [k])

theorem prefixGroups_nodup (ts : Nat → SyncTarget) (k : Nat) :
    (prefixGroups ts k).flatten.Nodup :=
  (prefixGroups_perm ts k).nodup_iff.mpr List.nodup_range

theorem mem_prefixGroups {i : Nat} : i ∈ (prefixGroups ts k).flatten ↔ i < k := by
  rw [(prefixGroups_perm ts k).mem_iff, List.mem_range]

theorem lt_of_mem_group {g : List Nat} {i : Nat} (hg : g ∈ prefixGroups ts k) (hi : i ∈ g) :
    i < k := mem_prefixGroups.mp (List.mem_flatten.mpr ⟨g, hg, hi⟩)

theorem length_linked_le {g : List Nat} (hg : g ∈ prefixGroups ts k) : g.length ≤ k := by
  have hlen := (List.sublist_flatten_of_mem hg).length_le
  rwa [(prefixGroups_perm ts k).length_eq, List.length_range] at hlen

theorem length_groupHeads_le : (groupHeads (prefixGroups ts k)).length ≤ k := by
  have hlen := (groupHeads_sublist (prefixGroups ts k)).length_le
  rwa [(prefixGroups_perm ts k).length_eq, List.length_range] at hlen

theorem sameHash_iff (target p : SyncTarget) : sameHash target p = true ↔ p.hash = target.hash := by
  unfold sameHash
  split
  next hlen => exact iff_of_false Bool.false_ne_true fun he => hlen (congrArg _ he)
  next hlen =>
    split
    next hzero =>
      have hp := List.length_eq_zero_iff.mp hzero
      have ht := List.length_eq_zero_iff.mp ((not_not.mp hlen).symm.trans hzero)
      exact iff_of_true rfl (hp.trans ht.symm)
    next hzero => exact decide_eq_true_iff

/-- `k` 個を繋いだ後。まだ繋いでいない target のリンクは NULL である。 -/
structure Threaded (ts : Nat → SyncTarget) (L : CrossLinks) (k : Nat) : Prop where
  threads : Threads L (prefixGroups ts k)
  fresh : ∀ i, k ≤ i → L.nextHashList i = none ∧ L.sameHashNext i = none

theorem Threaded.open_group (h : Threaded ts L k) (hn : k ≤ n)
    (hnew : ∀ g ∈ prefixGroups ts k, ∀ i ∈ g, (ts i).hash ≠ (ts k).hash) :
    Threads (L.hook ts n k) (prefixGroups ts k ++ [[k]]) ∧
      ∀ i, k + 1 ≤ i → (L.hook ts n k).nextHashList i = none ∧
        (L.hook ts n k).sameHashNext i = none := by
  have hlen : (groupHeads (prefixGroups ts k)).length ≤ n := length_groupHeads_le.trans hn
  have hlt : ∀ i ∈ groupHeads (prefixGroups ts k), i < k := fun i hi => by
    obtain ⟨g, hg, hig⟩ := mem_of_mem_groupHeads hi
    exact lt_of_mem_group hg hig
  have hnone : seekFirst L.nextHashList (fun p => sameHash (ts k) (ts p)) n (some 0) = none := by
    rw [h.threads.heads.seekFirst_eq _ hlen, List.find?_eq_none]
    intro i hi hsame
    obtain ⟨g, hg, hig⟩ := mem_of_mem_groupHeads hi
    exact hnew g hg i hig ((sameHash_iff _ _).mp hsame)
  obtain ⟨hlast, hheads⟩ := h.threads.heads.push hlen (h.fresh k le_rfl).1
    fun hk => absurd (hlt k hk) (lt_irrefl k)
  unfold CrossLinks.hook
  rw [hnone]
  refine ⟨⟨?_, ?_⟩, ?_⟩
  · rw [groupHeads_append]
    exact hheads
  · intro g hg
    rcases List.mem_append.mp hg with hg | hg
    · exact h.threads.groups g hg
    · rw [List.mem_singleton.mp hg]
      exact ⟨rfl, (h.fresh k le_rfl).2⟩
  · intro i hi
    obtain ⟨hnext, hsame⟩ := h.fresh i (by omega)
    refine ⟨(Function.update_of_ne ?_ ..).trans hnext, hsame⟩
    have := hlt _ hlast
    omega

theorem Threaded.join_group (h : Threaded ts L k) (hn : k ≤ n) {as bs : List (List Nat)}
    {g : List Nat} (hgs : prefixGroups ts k = as ++ g :: bs)
    (hbefore : ∀ b ∈ as, ∀ i ∈ b, (ts i).hash ≠ (ts k).hash)
    (hkey : ∀ i ∈ g, (ts i).hash = (ts k).hash) :
    Threads (L.hook ts n k) (as ++ (g ++ [k]) :: bs) ∧
      ∀ i, k + 1 ≤ i → (L.hook ts n k).nextHashList i = none ∧
        (L.hook ts n k).sameHashNext i = none := by
  have hg : g ∈ prefixGroups ts k := by simp [hgs]
  have hlt : ∀ i ∈ g, i < k := fun i hi => lt_of_mem_group hg hi
  have hglen : g.length ≤ n := (length_linked_le hg).trans hn
  have hlen : (groupHeads (as ++ g :: bs)).length ≤ n := by
    rw [← hgs]
    exact length_groupHeads_le.trans hn
  have hheads := h.threads.heads
  have hgroups := h.threads.groups
  have hdistinct := (prefixGroups_grouped ts k).distinct
  have hne := (prefixGroups_grouped ts k).nonempty g hg
  have hlinked := hgroups g hg
  rw [hgs] at hheads hgroups hdistinct
  replace hdistinct := (List.pairwise_append.mp hdistinct).2.1
  cases g with
  | nil => exact absurd rfl hne
  | cons p ps =>
    have hfound : seekFirst L.nextHashList (fun p => sameHash (ts k) (ts p)) n (some 0)
        = some p := by
      have hfind : (p :: groupHeads bs).find? (fun p => sameHash (ts k) (ts p)) = some p :=
        List.find?_cons_of_pos ((sameHash_iff _ _).mpr (hkey p List.mem_cons_self))
      rw [hheads.seekFirst_eq _ hlen, groupHeads_append, groupHeads_cons, List.find?_append, hfind]
      have hnone : (groupHeads as).find? (fun p => sameHash (ts k) (ts p)) = none := by
        rw [List.find?_eq_none]
        intro i hi hsame
        obtain ⟨b, hb, hib⟩ := mem_of_mem_groupHeads hi
        exact hbefore b hb i hib ((sameHash_iff _ _).mp hsame)
      rw [hnone]
      rfl
    obtain ⟨hlast, hpush⟩ := Linked.push (a := k) hlinked hglen (h.fresh k le_rfl).2
      fun hk => absurd (hlt k hk) (lt_irrefl k)
    unfold CrossLinks.hook
    rw [hfound]
    refine ⟨⟨?_, ?_⟩, ?_⟩
    · rw [groupHeads_append] at hheads ⊢
      exact hheads
    · intro b hb
      -- 他の group は、繋いだ target を通らない
      have hother : ∀ b, b ∈ as ∨ b ∈ bs → Linked (Function.update L.sameHashNext
          (seekLast L.sameHashNext n p) (some k)) b.head? b := by
        intro b hb
        have hmem : b ∈ as ++ (p :: ps) :: bs := by rcases hb with hb | hb <;> simp [hb]
        refine (hgroups b hmem).update_of_notMem (fun hx => ?_) _
        rcases hb with hb | hb
        · exact hbefore b hb _ hx (hkey _ hlast)
        · exact (List.pairwise_cons.mp hdistinct).1 b hb _ hlast _ hx rfl
      rcases List.mem_append.mp hb with hb | hb
      · exact hother b (Or.inl hb)
      · rcases List.mem_cons.mp hb with rfl | hb
        · exact hpush
        · exact hother b (Or.inr hb)
    · intro i hi
      obtain ⟨hnext, hsame⟩ := h.fresh i (by omega)
      refine ⟨hnext, (Function.update_of_ne ?_ ..).trans hsame⟩
      have := hlt _ hlast
      omega

theorem Threaded.hook (h : Threaded ts L k) (hn : k ≤ n) : Threaded ts (L.hook ts n k) (k + 1) := by
  have hstep : Threads (L.hook ts n k) (prefixGroups ts (k + 1)) ∧
      ∀ i, k + 1 ≤ i → (L.hook ts n k).nextHashList i = none ∧
        (L.hook ts n k).sameHashNext i = none := by
    have hins := (prefixGroups_grouped ts k).inserted k
    rw [prefixGroups_succ]
    generalize hgs : prefixGroups ts k = gs at hins ⊢
    generalize insertGroup (fun i => (ts i).hash) gs k = r at hins
    cases hins with
    | joins as bs g hsplit hbefore hkey => exact h.join_group hn (hgs.trans hsplit) hbefore hkey
    | opens hnew =>
      subst hgs
      exact h.open_group hn hnew
  exact ⟨hstep.1, hstep.2⟩

/-- **繋ぎ終えると、二つのリンクは hash で集めた group を通る。** -/
theorem targetCrossLinks_threaded (ts : Nat → SyncTarget) (hn : 0 < n) :
    Threads (targetCrossLinks ts n) (prefixGroups ts n) := by
  have hfold : ∀ k, k + 1 ≤ n →
      Threaded ts (((List.range k).map (· + 1)).foldl (CrossLinks.hook ts n) {}) (k + 1) := by
    intro k
    induction k with
    | zero =>
      intro _
      refine ⟨⟨⟨rfl, rfl⟩, fun g hg => ?_⟩, fun _ _ => ⟨rfl, rfl⟩⟩
      rw [List.mem_singleton.mp (show g ∈ [[0]] from hg)]
      exact ⟨rfl, rfl⟩
    | succ k ih =>
      intro hk
      rw [List.range_succ, List.map_append, List.foldl_append]
      exact (ih (by omega)).hook (by omega)
  have h := hfold (n - 1) (by omega)
  rw [Nat.sub_add_cancel hn] at h
  exact h.threads

theorem crossLink_eq (target : SyncTarget) : ∀ groups : List (List SyncTarget),
    crossLink groups target = insertGroup SyncTarget.hash groups target
  | [] => rfl
  | g :: gs => by rw [crossLink, insertGroup, crossLink_eq target gs]

/-- **リンクが通る group は、`beeCreateTargetCrossLinks` の group である。** -/
theorem prefixGroups_map (ts : Nat → SyncTarget) (n : Nat) :
    (prefixGroups ts n).map (List.map ts)
      = beeCreateTargetCrossLinks ((List.range n).map ts) := by
  unfold beeCreateTargetCrossLinks
  induction n with
  | zero => rfl
  | succ n ih =>
    rw [prefixGroups_succ, insertGroup_map, ih, List.range_succ, List.map_append, List.foldl_append]
    exact (crossLink_eq _ _).symm

end

/-! ## 番号の列に送る -/

/-- 番号の列の順に送る。0 でない値が返ったら止まる。 -/
def SyncRun.sendAll (io : Nat → TargetIo) (name key value : List UInt8) :
    List Nat → SyncRun → Int × SyncRun
  | [], st => (0, st)
  | p :: ps, st =>
    let (r, st) := st.send io name key value p
    if r ≠ 0 then (r, st) else SyncRun.sendAll io name key value ps st

section

variable {io : Nat → TargetIo} {name key value : List UInt8} {L : CrossLinks} {st st' : SyncRun}
  {ts : Nat → SyncTarget} {n : Nat} {hash : HashT} {xs ys : List Nat}

/-- 書いている間、成功しても失敗しても hash は `h` のまま変わらない。 -/
def KeepsHash (h : List UInt8) (x : Except SyncTarget SyncTarget) : Prop :=
  ∀ q, x = .ok q ∨ x = .error q → q.hash = h

theorem KeepsHash.bind {h : List UInt8} {x : Except SyncTarget SyncTarget}
    {f : SyncTarget → Except SyncTarget SyncTarget} (hx : KeepsHash h x)
    (hf : ∀ q, q.hash = h → KeepsHash h (f q)) : KeepsHash h (x >>= f) := by
  intro t ht
  cases hres : x with
  | error e =>
    rw [hres] at ht
    rcases ht with ht | ht
    · cases ht
    · cases ht
      exact hx _ (Or.inr hres)
  | ok q =>
    rw [hres] at ht
    exact hf q (hx q (Or.inl hres)) t ht

theorem keepsHash_write (p : SyncTarget) (o : TargetIo) (field : SyncField) (data : List UInt8)
    (expect : Int) (errs : String) : KeepsHash p.hash (p.write o field data expect errs) := by
  intro q h
  unfold SyncTarget.write at h
  dsimp only at h
  split at h
  · rcases h with h | h
    · cases h
    · cases h
      rfl
  · rcases h with h | h
    · cases h
      rfl
    · cases h

theorem beeBucketSyncDataToTarget_hash (o : TargetIo) (name key value : List UInt8)
    (p : SyncTarget) : (beeBucketSyncDataToTarget o name key value p).2.hash = p.hash := by
  have hwrite : ∀ (field : SyncField) (data : List UInt8) (expect : Int) (errs : String)
      (q : SyncTarget), q.hash = p.hash → KeepsHash p.hash (q.write o field data expect errs) :=
    fun field data expect errs q hq => hq ▸ keepsHash_write q o field data expect errs
  have hheader : KeepsHash p.hash (syncSendHeader o name key value p) := by
    unfold syncSendHeader
    split
    · split
      · rintro q (h | h)
        · cases h
        · cases h
          rfl
      · exact (hwrite .header _ headerSize "failed to send initial header"
          { p with socketFd := o.socket } rfl).bind fun q hq => hwrite _ _ _ _ q hq
    · exact hwrite _ _ _ _ p rfl
  have hall := hheader.bind fun q hq =>
    (hwrite .hash q.hashStr key.length "failed to send key" q hq).bind fun t ht =>
      (hwrite .key key key.length "failed to send key" t ht).bind fun u hu =>
        hwrite .value value value.length "failed to send value" u hu
  unfold beeBucketSyncDataToTarget
  dsimp only
  split
  next q hq => exact hall q (Or.inl hq)
  next q hq => exact hall q (Or.inr hq)

theorem send_hash (io : Nat → TargetIo) (name key value : List UInt8) (st : SyncRun) (p i : Nat) :
    ((st.send io name key value p).2.targets i).hash = (st.targets i).hash := by
  show (Function.update st.targets p _ i).hash = _
  by_cases hi : i = p
  · subst hi
    rw [Function.update_self]
    exact beeBucketSyncDataToTarget_hash _ _ _ _ _
  · rw [Function.update_of_ne hi]

theorem sendAll_hash (xs : List Nat) (st : SyncRun) (i : Nat) :
    ((SyncRun.sendAll io name key value xs st).2.targets i).hash = (st.targets i).hash := by
  induction xs generalizing st with
  | nil => rfl
  | cons p ps ih =>
    rw [SyncRun.sendAll]
    dsimp only
    split
    · exact send_hash io name key value st p i
    · exact (ih _).trans (send_hash io name key value st p i)

theorem sendAll_append (xs ys : List Nat) (st : SyncRun) :
    SyncRun.sendAll io name key value (xs ++ ys) st
      = if (SyncRun.sendAll io name key value xs st).1 ≠ 0
        then SyncRun.sendAll io name key value xs st
        else SyncRun.sendAll io name key value ys (SyncRun.sendAll io name key value xs st).2 := by
  induction xs generalizing st with
  | nil => rfl
  | cons p ps ih =>
    rw [List.cons_append, SyncRun.sendAll, SyncRun.sendAll]
    dsimp only
    by_cases hr : (st.send io name key value p).1 ≠ 0
    · simp only [if_pos hr]
    · simp only [if_neg hr]
      exact ih _

theorem syncToTargetList_eq : ∀ {g : List Nat} {fuel : Nat} {p : Option Nat} (st : SyncRun),
    Linked L.sameHashNext p g → g.length ≤ fuel →
    syncToTargetList L io name key value fuel p st = some (st.sendAll io name key value g)
  | [], fuel, _, st, h, _ => by
    rw [linked_nil.mp h]
    cases fuel <;> rfl
  | x :: xs, 0, _, _, _, hn => by simp at hn
  | x :: xs, fuel + 1, _, st, h, hn => by
    obtain ⟨rfl, h⟩ := h
    rw [syncToTargetList, SyncRun.sendAll]
    dsimp only
    split
    · rfl
    · exact syncToTargetList_eq _ h (by simpa using hn)

theorem takes_eq (p : SyncTarget) (hash : HashT) : p.takes hash = p.hash.isPrefixOf hash.buf := by
  unfold SyncTarget.takes
  split
  · rfl
  next hlen =>
    rw [List.length_eq_zero_iff.mp (not_not.mp hlen)]
    rfl

/-- key の hash に当たる target を、送る順に並べたもの。 -/
def syncOrder (ts : Nat → SyncTarget) (hash : HashT) (gs : List (List Nat)) : List Nat :=
  (gs.filter fun g => g.head?.any fun p => (ts p).hash.isPrefixOf hash.buf).flatten

/-- **`next_hash_list` を辿るのは、当たる group の target に順に送ることである。** -/
theorem syncItemLoop_eq : ∀ {gs : List (List Nat)} {fuel : Nat} {p : Option Nat} (st : SyncRun),
    Linked L.nextHashList p (groupHeads gs) →
    (∀ g ∈ gs, g ≠ [] ∧ g.length ≤ n ∧ Linked L.sameHashNext g.head? g) → gs.length ≤ fuel →
    (∀ i, (st.targets i).hash = (ts i).hash) →
    syncItemLoop L io hash name key value n fuel p st
      = some (st.sendAll io name key value (syncOrder ts hash gs))
  | [], fuel, _, st, h, _, _, _ => by
    rw [linked_nil.mp h]
    cases fuel <;> rfl
  | [] :: gs, _, _, _, _, hgs, _, _ => absurd rfl (hgs [] List.mem_cons_self).1
  | (x :: xs) :: gs, 0, _, _, _, _, hn, _ => by simp at hn
  | (x :: xs) :: gs, fuel + 1, _, st, h, hgs, hn, hst => by
    obtain ⟨rfl, h⟩ := h
    obtain ⟨⟨-, hlen, hlinked⟩, hgs⟩ := List.forall_mem_cons.mp hgs
    rw [List.head?_cons] at hlinked
    have hn : gs.length ≤ fuel := by simpa using hn
    have htakes : (st.targets x).takes hash = (ts x).hash.isPrefixOf hash.buf := by
      rw [takes_eq, hst x]
    rw [syncItemLoop, htakes]
    by_cases hmatch : (ts x).hash.isPrefixOf hash.buf = true
    · have horder : syncOrder ts hash ((x :: xs) :: gs) = (x :: xs) ++ syncOrder ts hash gs := by
        unfold syncOrder
        rw [List.filter_cons_of_pos (by exact hmatch), List.flatten_cons]
      rw [if_pos hmatch, syncToTargetList_eq st hlinked hlen, horder, sendAll_append]
      dsimp only
      split
      · rfl
      · exact syncItemLoop_eq _ h hgs hn fun i => (sendAll_hash _ _ i).trans (hst i)
    · have horder : syncOrder ts hash ((x :: xs) :: gs) = syncOrder ts hash gs := by
        unfold syncOrder
        rw [List.filter_cons_of_neg (by exact hmatch)]
      rw [if_neg hmatch, horder]
      exact syncItemLoop_eq st h hgs hn hst

structure SentAll (io : Nat → TargetIo) (name key value : List UInt8) (xs : List Nat)
    (st st' : SyncRun) : Prop where
  calls : st'.calls = st.calls ++ xs
  sent : ∀ i ∈ xs, beeBucketSyncDataToTarget (io i) name key value (st.targets i)
    = (0, st'.targets i)
  others : ∀ i, i ∉ xs → st'.targets i = st.targets i

theorem sendAll_spec (hnodup : xs.Nodup) (st : SyncRun) :
    ((st.sendAll io name key value xs).1 = 0 ↔
      ∀ i ∈ xs, (beeBucketSyncDataToTarget (io i) name key value (st.targets i)).1 = 0) ∧
    ((st.sendAll io name key value xs).1 = 0 →
      SentAll io name key value xs st (st.sendAll io name key value xs).2) := by
  induction xs generalizing st with
  | nil =>
    exact ⟨iff_of_true rfl (List.forall_mem_nil _), fun _ =>
      ⟨(List.append_nil _).symm, List.forall_mem_nil _, fun _ _ => rfl⟩⟩
  | cons x xs ih =>
    obtain ⟨hx, hnodup⟩ := List.nodup_cons.mp hnodup
    have hcall : st.send io name key value x
        = ((beeBucketSyncDataToTarget (io x) name key value (st.targets x)).1,
          { targets := Function.update st.targets x
              (beeBucketSyncDataToTarget (io x) name key value (st.targets x)).2
            calls := st.calls ++ [x] }) := rfl
    generalize hst : (st.send io name key value x).2 = st₁
    have hother : ∀ i, i ≠ x → st₁.targets i = st.targets i := fun i hi => by
      rw [← hst, hcall]
      exact Function.update_of_ne hi ..
    have hself : st₁.targets x
        = (beeBucketSyncDataToTarget (io x) name key value (st.targets x)).2 := by
      rw [← hst, hcall]
      exact Function.update_self ..
    have hrest : ∀ i ∈ xs, st₁.targets i = st.targets i := fun i hi =>
      hother i fun he => hx (he ▸ hi)
    obtain ⟨hzero, hsent⟩ := ih hnodup st₁
    rw [SyncRun.sendAll]
    dsimp only
    rw [hst]
    by_cases hr : (st.send io name key value x).1 ≠ 0
    · rw [if_pos hr]
      exact ⟨iff_of_false hr fun h => hr (h x List.mem_cons_self), fun h => absurd h hr⟩
    · rw [if_neg hr, hzero]
      have hr : (beeBucketSyncDataToTarget (io x) name key value (st.targets x)).1 = 0 :=
        not_not.mp hr
      refine ⟨?_, fun h => ?_⟩
      · rw [List.forall_mem_cons]
        refine ⟨fun h => ⟨hr, fun i hi => hrest i hi ▸ h i hi⟩, fun h i hi => ?_⟩
        rw [hrest i hi]
        exact h.2 i hi
      · have hall := hsent (hzero.mpr h)
        refine ⟨?_, ?_, ?_⟩
        · rw [hall.calls, ← hst, hcall, List.append_assoc]
          rfl
        · intro i hi
          rcases List.mem_cons.mp hi with rfl | hi
          · -- 送った target には、後で触れない
            rw [hall.others i hx, hself, ← hr]
          · rw [← hrest i hi]
            exact hall.sent i hi
        · intro i hi
          obtain ⟨hix, hi⟩ := List.ne_and_not_mem_of_not_mem_cons hi
          exact (hall.others i hi).trans (hother i hix)

end

/-! ## 一つの record -/

section

variable {ts : Nat → SyncTarget} {n i : Nat} {hash : HashT}

def targetOrder (ts : Nat → SyncTarget) (n : Nat) (hash : HashT) : List Nat :=
  syncOrder ts hash (prefixGroups ts n)

theorem mem_targetOrder : i ∈ targetOrder ts n hash ↔ i < n ∧ (ts i).takes hash = true := by
  rw [takes_eq, ← mem_prefixGroups]
  exact (prefixGroups_grouped ts n).mem_chosen fun h => h.isPrefixOf hash.buf

theorem targetOrder_nodup (ts : Nat → SyncTarget) (n : Nat) (hash : HashT) :
    (targetOrder ts n hash).Nodup :=
  (prefixGroups_nodup ts n).sublist List.filter_sublist.flatten

/-- **`bee_bucket_sync_db_item` は、当たる target に一度ずつ送る。** -/
theorem syncDbItem_eq (hashOf : List UInt8 → HashT) (io : Nat → TargetIo) (ts : Nat → SyncTarget)
    (hn : 0 < n) (name key value : List UInt8) :
    syncDbItem hashOf io ts n name key value
      = some (SyncRun.sendAll io name key value (targetOrder ts n (hashOf key))
          { targets := ts }) := by
  have hthreads := targetCrossLinks_threaded ts hn
  have hgrouped := prefixGroups_grouped ts n
  have hlen := hgrouped.length_le
  rw [(prefixGroups_perm ts n).length_eq, List.length_range] at hlen
  exact syncItemLoop_eq _ hthreads.heads
    (fun g hg => ⟨hgrouped.nonempty g hg, length_linked_le hg, hthreads.groups g hg⟩) hlen
    fun _ => rfl

/--
**どんな socket でも、0 を返したなら、当たる target にはちょうど一度送れていて、
他の target には何も送っていない。**
-/
theorem syncDbItem_once (hashOf : List UInt8 → HashT) (io : Nat → TargetIo) (hn : 0 < n)
    {name key value : List UInt8} {st : SyncRun}
    (h : syncDbItem hashOf io ts n name key value = some (0, st)) (hi : i < n) :
    st.calls.count i = (if (ts i).takes (hashOf key) then 1 else 0) ∧
      if (ts i).takes (hashOf key) then
        beeBucketSyncDataToTarget (io i) name key value (ts i) = (0, st.targets i)
      else st.targets i = ts i := by
  rw [syncDbItem_eq hashOf io ts hn] at h
  have hrun := Option.some.inj h
  have hnodup := targetOrder_nodup ts n (hashOf key)
  have hall := (sendAll_spec hnodup { targets := ts }).2 (congrArg Prod.fst hrun)
  rw [hrun] at hall
  have hcalls : st.calls = targetOrder ts n (hashOf key) := hall.calls
  have hmem : i ∈ targetOrder ts n (hashOf key) ↔ (ts i).takes (hashOf key) = true := by
    rw [mem_targetOrder]
    exact and_iff_right hi
  rw [hcalls]
  by_cases htakes : (ts i).takes (hashOf key) = true
  · rw [if_pos htakes, if_pos htakes]
    exact ⟨List.count_eq_one_of_mem hnodup (hmem.mpr htakes), hall.sent i (hmem.mpr htakes)⟩
  · rw [if_neg htakes, if_neg htakes]
    have hnot : i ∉ targetOrder ts n (hashOf key) := fun hm => htakes (hmem.mp hm)
    exact ⟨List.count_eq_zero_of_not_mem hnot, hall.others i hnot⟩

def SyncTarget.frame (p : SyncTarget) (name key value : List UInt8) : List UInt8 :=
  (if p.socketFd = -1 then (syncHeader name.length p key value).bytes ++ name
    else (syncHeader 0 p key value).bytes) ++ (p.hashStr ++ (key ++ value))

theorem beeBucketSyncDataToTarget_frame (fd : Nat) (name key value : List UInt8) (p : SyncTarget)
    (hlen : p.hashStr.length = key.length) :
    (beeBucketSyncDataToTarget (.full fd) name key value p).2.sent
      = p.sent ++ p.frame name key value := by
  have hfd : (TargetIo.full fd).socket ≠ -1 := by
    show (fd : Int) ≠ -1
    omega
  obtain ⟨q, hq, hsent, hstr⟩ : ∃ q, syncSendHeader (.full fd) name key value p = .ok q ∧
      q.sent = p.sent ++ (if p.socketFd = -1 then (syncHeader name.length p key value).bytes ++ name
        else (syncHeader 0 p key value).bytes) ∧ q.hashStr = p.hashStr := by
    unfold syncSendHeader
    by_cases hopen : p.socketFd = -1
    · rw [if_pos hopen, if_neg hfd, write_full, if_pos (by rw [length_headerBytes])]
      simp only [ok_bind]
      rw [write_full, if_pos rfl, if_pos hopen]
      exact ⟨_, rfl, List.append_assoc _ _ _, rfl⟩
    · rw [if_neg hopen, write_full, if_pos (by rw [length_headerBytes]), if_neg hopen]
      exact ⟨_, rfl, rfl, rfl⟩
  unfold beeBucketSyncDataToTarget SyncTarget.frame
  rw [hq]
  simp only [ok_bind]
  rw [write_full, if_pos (by rw [hstr, hlen])]
  simp only [ok_bind]
  rw [write_full, if_pos rfl]
  simp only [ok_bind]
  rw [write_full, if_pos rfl]
  simp only [hsent, hstr, List.append_assoc]

/-- 当たる target にはちょうど一度、他の target には一度も送らずに、0 を返す。 -/
def SentOnce (ts : Nat → SyncTarget) (n : Nat) (hash : HashT) (name key value : List UInt8)
    (res : Option (Int × SyncRun)) : Prop :=
  ∃ st, res = some (0, st) ∧ ∀ i < n,
    st.calls.count i = (if (ts i).takes hash then 1 else 0) ∧
    (st.targets i).sent
      = (ts i).sent ++ if (ts i).takes hash then (ts i).frame name key value else []

theorem syncDbItem_full (hashOf : List UInt8 → HashT) (fd : Nat → Nat) (hn : 0 < n)
    (name key value : List UInt8) :
    SentOnce ts n (hashOf key) name key value
        (syncDbItem hashOf (fun i => .full (fd i)) ts n name key value) ↔
      ∀ i < n, (ts i).takes (hashOf key) = true → (ts i).hashStr.length = key.length := by
  have hone : ∀ i, (beeBucketSyncDataToTarget (.full (fd i)) name key value (ts i)).1 = 0 ↔
      (ts i).hashStr.length = key.length := by
    intro i
    obtain ⟨q, hq, -⟩ := beeBucketSyncDataToTarget_full (fd i) name key value (ts i)
    rw [hq]
    by_cases hlen : (ts i).hashStr.length = key.length <;> simp [hlen]
  have hzero := (@sendAll_spec (fun i => .full (fd i)) name key value _
    (targetOrder_nodup ts n (hashOf key)) { targets := ts }).1
  constructor
  · rintro ⟨st, hst, -⟩ i hi htakes
    rw [syncDbItem_eq hashOf _ ts hn] at hst
    have hr := hzero.mp (congrArg Prod.fst (Option.some.inj hst))
    exact (hone i).mp (hr i (mem_targetOrder.mpr ⟨hi, htakes⟩))
  · intro h
    have hr := hzero.mpr fun i hi => (hone i).mpr
      (h i (mem_targetOrder.mp hi).1 (mem_targetOrder.mp hi).2)
    obtain ⟨st, hst⟩ : ∃ st, syncDbItem hashOf (fun i => .full (fd i)) ts n name key value
        = some (0, st) :=
      ⟨_, (syncDbItem_eq hashOf _ ts hn name key value).trans (congrArg some (Prod.ext hr rfl))⟩
    refine ⟨st, hst, fun i hi => ?_⟩
    obtain ⟨hcount, hsent⟩ := syncDbItem_once hashOf _ hn hst hi
    refine ⟨hcount, ?_⟩
    by_cases htakes : (ts i).takes (hashOf key) = true
    · rw [if_pos htakes] at hsent ⊢
      rw [← beeBucketSyncDataToTarget_frame (fd i) name key value (ts i) (h i hi htakes), hsent]
    · rw [if_neg htakes] at hsent ⊢
      rw [hsent, List.append_nil]

/-- 二つのリンクが、`n` 個の target を hash で分けた group を通る。 -/
structure PartitionedBy (L : CrossLinks) (ts : Nat → SyncTarget) (n : Nat)
    (gs : List (List Nat)) : Prop where
  threads : Threads L gs
  /-- どの target もちょうど一度通る -/
  once : gs.flatten.Perm (List.range n)
  sameGroup : ∀ g ∈ gs, ∀ g' ∈ gs, ∀ i ∈ g, ∀ j ∈ g', g = g' ↔ (ts i).hash = (ts j).hash

theorem partitionedBy_prefixGroups (ts : Nat → SyncTarget) (hn : 0 < n) :
    PartitionedBy (targetCrossLinks ts n) ts n (prefixGroups ts n) where
  threads := targetCrossLinks_threaded ts hn
  once := prefixGroups_perm ts n
  sameGroup g hg g' hg' i hi j hj := by
    have hgrouped := prefixGroups_grouped ts n
    refine ⟨?_, fun hkey => hgrouped.same_group hg hg' hi hj hkey⟩
    rintro rfl
    exact hgrouped.uniform g hg i hi j hj

end

/--
**どんな target の配列でも、二つのリンクは target を hash で分けた group を通る。
どの `write` も成功するとき、record が当たる target にちょうど一度送られて error にならないのは、
当たる target の hash の文字列がどれも key と同じ長さのときに限る。**
-/
theorem sync_cross_links (ts : Nat → SyncTarget) (n : Nat) (hn : 0 < n) :
    (∃ gs, PartitionedBy (targetCrossLinks ts n) ts n gs) ∧
      ∀ (hashOf : List UInt8 → HashT) (fd : Nat → Nat) (name key value : List UInt8),
        SentOnce ts n (hashOf key) name key value
            (syncDbItem hashOf (fun i => .full (fd i)) ts n name key value) ↔
          ∀ i < n, (ts i).takes (hashOf key) = true → (ts i).hashStr.length = key.length :=
  ⟨⟨_, partitionedBy_prefixGroups ts hn⟩,
    fun hashOf fd name key value => syncDbItem_full hashOf fd hn name key value⟩

/-- 0 番と 2 番は空の hash、1 番は 07 の hash を持つ。 -/
def crossSample (i : Nat) : SyncTarget :=
  if i = 1 then { SyncTarget.sample with hash := [7], hashStr := [48, 55, 120] } else .sample

example : (targetCrossLinks crossSample 3).sameHashNext 0 = some 2 ∧
    (targetCrossLinks crossSample 3).nextHashList 0 = some 1 := by decide

/-- 三つの target を二つの group に繋ぐとき。 -/
theorem sync_cross_links_sample :
    (∃ gs, PartitionedBy (targetCrossLinks crossSample 3) crossSample 3 gs) ∧
      ∀ (hashOf : List UInt8 → HashT) (fd : Nat → Nat) (name key value : List UInt8),
        SentOnce crossSample 3 (hashOf key) name key value
            (syncDbItem hashOf (fun i => .full (fd i)) crossSample 3 name key value) ↔
          ∀ i < 3, (crossSample i).takes (hashOf key) = true →
            (crossSample i).hashStr.length = key.length :=
  sync_cross_links crossSample 3 (by decide)

/-- **どの `write` も成功するのに、二 byte の key の record は送られない。** -/
theorem sync_record_not_sent :
    ¬ SentOnce (fun _ => .sample) 1 ⟨List.replicate 32 0, by decide⟩ [97] [1, 2] (timevalOf 1)
      (syncDbItem (fun _ => ⟨List.replicate 32 0, by decide⟩) (fun _ => .full 3) (fun _ => .sample) 1
        [97] [1, 2] (timevalOf 1)) := by
  intro h
  have hlen := (syncDbItem_full _ (fun _ => 3) (by decide) [97] [1, 2] (timevalOf 1)).mp h 0
    (by decide) (by decide)
  exact absurd hlen (by decide)

end Esq
