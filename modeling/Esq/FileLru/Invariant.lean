import Esq.FileLru.Basic
import Esq.Infra.Run

/-!
# cache の列と木

列にある entry は、木のどれかにちょうど一度ある（`CacheInv`）。木が壊れて根を失っても、これは変わらない。

`file_lru_t` を一人で持つ呼び手がいる間、その entry は列に無い。誰が持つかは `owner` で与える。
-/

namespace Esq

open Infra

/-! ## 列と木の不変量 -/

/-- `own p` は、`p` を一人の呼び手が持つことである。 -/
structure CacheInv (st : FileLru) (own : Nat → Prop) : Prop where
  nodup : st.list.Nodup
  forest : st.rb.toList.Perm st.list
  list_lt : ∀ p ∈ st.list, p < st.next
  own_lt : ∀ p, own p → p < st.next
  own_not : ∀ p, own p → p ∉ st.list
  size : ∀ p < st.next, 0 < (st.entry p).fileSize ∧ (st.entry p).fileSize < 2 ^ 31

structure SameCache (st st' : FileLru) : Prop where
  list : st'.list = st.list
  rb : st'.rb = st.rb
  next : st'.next = st.next
  size : ∀ p, (st'.entry p).fileSize = (st.entry p).fileSize
  key : ∀ p, (st'.entry p).key = (st.entry p).key

section

variable {st st' : FileLru} {own own' : Nat → Prop} {p q : Nat} {io : ForestIo Nat}

theorem SameCache.refl (st : FileLru) : SameCache st st := ⟨rfl, rfl, rfl, fun _ => rfl, fun _ => rfl⟩

theorem SameCache.trans {st'' : FileLru} (h : SameCache st st') (h' : SameCache st' st'') :
    SameCache st st'' :=
  ⟨h'.list.trans h.list, h'.rb.trans h.rb, h'.next.trans h.next,
    fun p => (h'.size p).trans (h.size p), fun p => (h'.key p).trans (h.key p)⟩

theorem SameCache.setEntry {e : FileLruEntry} (he : e.fileSize = (st.entry p).fileSize)
    (hk : e.key = (st.entry p).key) : SameCache st (st.setEntry p e) := by
  refine ⟨rfl, rfl, rfl, fun q => ?_, fun q => ?_⟩
  · by_cases hq : q = p
    · subst hq
      exact (congrArg FileLruEntry.fileSize (Function.update_self ..)).trans he
    · exact congrArg FileLruEntry.fileSize (Function.update_of_ne hq _ _)
  · by_cases hq : q = p
    · subst hq
      exact (congrArg FileLruEntry.key (Function.update_self ..)).trans hk
    · exact congrArg FileLruEntry.key (Function.update_of_ne hq _ _)

theorem SameCache.borrowInc (st : FileLru) (p : Nat) : SameCache st (st.borrowInc p) := .setEntry rfl rfl

theorem SameCache.joinPurged (st : FileLru) (p : Nat) : SameCache st (st.joinPurged p) :=
  SameCache.trans (.setEntry (p := p) (e := { st.entry p with purged := true }) rfl rfl)
    ⟨rfl, rfl, rfl, fun _ => rfl, fun _ => rfl⟩

theorem SameCache.rbFind (h : SameCache st st') (k : FileLruKey) : st'.rbFind k = st.rbFind k := by
  unfold FileLru.rbFind
  simp only [h.rb, h.key]

theorem CacheInv.congr (h : CacheInv st own) (hs : SameCache st st') : CacheInv st' own where
  nodup := by
    rw [hs.list]
    exact h.nodup
  forest := by
    rw [hs.list, hs.rb]
    exact h.forest
  list_lt p hp := by
    rw [hs.list] at hp
    rw [hs.next]
    exact h.list_lt p hp
  own_lt p hp := by
    rw [hs.next]
    exact h.own_lt p hp
  own_not p hp := by
    rw [hs.list]
    exact h.own_not p hp
  size p hp := by
    rw [hs.next] at hp
    rw [hs.size]
    exact h.size p hp

theorem CacheInv.mono (h : CacheInv st own) (hown : ∀ p, own' p → own p) : CacheInv st own' :=
  { h with own_lt := fun p hp => h.own_lt p (hown p hp), own_not := fun p hp => h.own_not p (hown p hp) }

theorem FileLru.leave_eq_some (h : st.leave io p = some st') :
    ∃ rb, st.rb.remove io p = some rb ∧ st' = { st with list := st.list.erase p, rb } := by
  unfold leave at h
  obtain ⟨rb, hrb, rfl⟩ := Option.map_eq_some_iff.mp h
  exact ⟨rb, hrb, rfl⟩

/-- **列から外した entry は、外した者だけが持つ。** -/
theorem CacheInv.leave (h : CacheInv st own) (hp : p ∈ st.list) (hl : st.leave io p = some st') :
    CacheInv st' fun q => own q ∨ q = p := by
  obtain ⟨rb, hrb, rfl⟩ := FileLru.leave_eq_some hl
  refine ⟨h.nodup.erase p, ?_, fun q hq => h.list_lt q (List.mem_of_mem_erase hq), ?_, ?_, h.size⟩
  · exact (SearchForest.perm_remove (h.forest.nodup_iff.mpr h.nodup) hrb).trans (h.forest.erase p)
  · rintro q (hq | rfl)
    · exact h.own_lt q hq
    · exact h.list_lt q hp
  · rintro q (hq | rfl) hm
    · exact h.own_not q hq (List.mem_of_mem_erase hm)
    · exact (List.Nodup.mem_erase_iff h.nodup).mp hm |>.1 rfl

theorem CacheInv.toHead (h : CacheInv st own) (hp : p ∈ st.list) :
    CacheInv { st with list := p :: st.list.erase p } own := by
  have hperm : st.list.Perm (p :: st.list.erase p) := List.perm_cons_erase hp
  refine ⟨hperm.nodup_iff.mp h.nodup, h.forest.trans hperm, ?_, h.own_lt, ?_, h.size⟩
  · intro q hq
    exact h.list_lt q (hperm.mem_iff.mpr hq)
  · intro q hq hm
    exact h.own_not q hq (hperm.mem_iff.mpr hm)

theorem CacheInv.alloc (h : CacheInv st own) {e : FileLruEntry}
    (he : 0 < e.fileSize ∧ e.fileSize < 2 ^ 31) :
    CacheInv (st.alloc e) fun q => own q ∨ q = st.next := by
  refine ⟨h.nodup, h.forest, fun q hq => Nat.lt_succ_of_lt (h.list_lt q hq), ?_, ?_, ?_⟩
  · rintro q (hq | rfl)
    · exact Nat.lt_succ_of_lt (h.own_lt q hq)
    · exact Nat.lt_succ_self _
  · rintro q (hq | rfl) hm
    · exact h.own_not q hq hm
    · exact lt_irrefl _ (h.list_lt _ hm)
  · intro q hq
    show 0 < (Function.update st.entry st.next e q).fileSize ∧
      (Function.update st.entry st.next e q).fileSize < 2 ^ 31
    by_cases hn : q = st.next
    · subst hn
      rw [Function.update_self]
      exact he
    · rw [Function.update_of_ne hn]
      exact h.size q (by
        have hq : q < st.next + 1 := hq
        omega)

theorem FileLru.rbInsert_eq_some (h : st.rbInsert io p = some st') :
    ∃ rb, st.rb.insert io (fun x => fileLruNameCmp (st.entry p).key (st.entry x).key) p = some rb ∧
      st' = { st with rb } := by
  unfold rbInsert at h
  obtain ⟨rb, hrb, rfl⟩ := Option.map_eq_some_iff.mp h
  exact ⟨rb, hrb, rfl⟩

/-- **自分だけが持つ entry を列と木に入れる。** -/
theorem CacheInv.insert (h : CacheInv st own) (hp : own p) (hi : st.rbInsert io p = some st') :
    CacheInv { st' with list := p :: st'.list } fun q => own q ∧ q ≠ p := by
  obtain ⟨rb, hrb, rfl⟩ := FileLru.rbInsert_eq_some hi
  refine ⟨List.nodup_cons.mpr ⟨h.own_not p hp, h.nodup⟩, ?_, ?_, fun q hq => h.own_lt q hq.1, ?_,
    h.size⟩
  · exact (SearchForest.perm_insert hrb).trans (h.forest.cons p)
  · intro q hq
    rcases List.mem_cons.mp hq with rfl | hq
    · exact h.own_lt q hp
    · exact h.list_lt q hq
  · rintro q ⟨hq, hne⟩ hm
    rcases List.mem_cons.mp hm with rfl | hm
    · exact hne rfl
    · exact h.own_not q hq hm

theorem CacheInv.mem_of_rbFind (h : CacheInv st own) {k : FileLruKey} (hf : st.rbFind k = some p) :
    p ∈ st.list ∧ fileLruNameCmp k (st.entry p).key = 0 := by
  obtain ⟨hm, hc⟩ := SearchTree.find_eq_some hf
  exact ⟨h.forest.mem_iff.mp (List.mem_append_left _ hm), hc⟩

/-! ## loop の規則 -/

def FileLru.evict (st : FileLru) (p : Nat) : FileLru :=
  let st := { st with lruSizeTotal := toInt32 (st.lruSizeTotal - (st.entry p).fileSize) }
  if (st.entry p).borrowCnt ≠ (0 : Int) then st.joinPurged p else st.free p

theorem SameCache.evict (st : FileLru) (p : Nat) : SameCache st (st.evict p) := by
  unfold FileLru.evict
  dsimp only
  split
  · have htotal : SameCache st
        { st with lruSizeTotal := toInt32 (st.lruSizeTotal - (st.entry p).fileSize) } :=
      ⟨rfl, rfl, rfl, fun _ => rfl, fun _ => rfl⟩
    exact htotal.trans (.joinPurged _ p)
  · exact ⟨rfl, rfl, rfl, fun _ => rfl, fun _ => rfl⟩

/-- **`__file_lru_purge` の規則。** 一つ外すごとに保たれる性質は、終わった後も成り立つ。 -/
theorem fileLruPurgeLoop_rule {P : FileLru → Prop} {n : Int}
    (hstep : ∀ st p st', P st → p ∈ st.list → st.leave io p = some st' → P (st'.evict p)) :
    ∀ {ps : List Nat} {st st' : FileLru}, P st → ps.Nodup → (∀ p ∈ ps, p ∈ st.list) →
      fileLruPurgeLoop io n ps st = some st' → P st'
  | [], st, st', h, _, _, hr => by
    cases hr
    exact h
  | p :: ps, st, st', h, hnd, hmem, hr => by
    unfold fileLruPurgeLoop at hr
    split at hr
    · cases hl : st.leave io p with
      | none =>
        rw [hl] at hr
        cases hr
      | some s =>
        have hnext := hstep st p s h (hmem p List.mem_cons_self) hl
        have hrun : fileLruPurgeLoop io n ps (s.evict p) = some st' := by
          rw [hl] at hr
          unfold FileLru.evict
          dsimp only at hr ⊢
          split at hr
          · rw [if_pos ‹_›]
            exact hr
          · rw [if_neg ‹_›]
            exact hr
        obtain ⟨hp, hnd⟩ := List.nodup_cons.mp hnd
        refine fileLruPurgeLoop_rule hstep hnext hnd ?_ hrun
        intro q hq
        obtain ⟨rb, -, rfl⟩ := FileLru.leave_eq_some hl
        rw [(SameCache.evict _ p).list]
        have hqp : q ≠ p := fun he => hp (he ▸ hq)
        exact (List.mem_erase_of_ne hqp).mpr (hmem q (List.mem_cons_of_mem p hq))
    · cases hr
      exact h

theorem fileLruPurge_rule {P : FileLru → Prop} {n : Int}
    (hstep : ∀ st p st', P st → p ∈ st.list → st.leave io p = some st' → P (st'.evict p))
    (h : P st) (hnd : st.list.Nodup) (hr : fileLruPurge io st n = some st') : P st' :=
  fileLruPurgeLoop_rule hstep h (List.nodup_reverse.mpr hnd) (fun _ hp => List.mem_reverse.mp hp) hr

theorem fileLruMakeRoom_rule {P : FileLru → Prop}
    (hstep : ∀ st p st', P st → p ∈ st.list → st.leave io p = some st' → P (st'.evict p))
    (h : P st) (hnd : st.list.Nodup) (hr : fileLruMakeRoom io st p = some st') : P st' := by
  unfold fileLruMakeRoom at hr
  split at hr
  · exact fileLruPurge_rule hstep h hnd hr
  · cases hr
    exact h

/--
**`file_lru_purge_all` の規則。** 借りられている entry を移すごとに保たれる性質は、借りられていない entry を
外す直前まで成り立つ。
-/
theorem fileLruPurgeAllLoop_rule {P : FileLru → Prop}
    (hstep : ∀ st p st', P st → p ∈ st.list → st.leave io p = some st' →
      (st'.entry p).borrowCnt ≠ 0 → P (st'.joinPurged p)) :
    ∀ {ps : List Nat} {st st' : FileLru} {r : Option Nat}, P st → ps.Nodup →
      (∀ p ∈ ps, p ∈ st.list) → fileLruPurgeAllLoop io ps st = some (r, st') →
      (r = none ∧ P st') ∨ ∃ p s, r = some p ∧ P s ∧ p ∈ s.list ∧ s.leave io p = some st' ∧
        (st'.entry p).borrowCnt = 0
  | [], st, st', r, h, _, _, hr => by
    cases hr
    exact Or.inl ⟨rfl, h⟩
  | p :: ps, st, st', r, h, hnd, hmem, hr => by
    unfold fileLruPurgeAllLoop at hr
    cases hl : st.leave io p with
    | none =>
      rw [hl] at hr
      cases hr
    | some s =>
      rw [hl] at hr
      have hp := hmem p List.mem_cons_self
      dsimp only at hr
      split at hr
      · next hcnt =>
        obtain ⟨hnot, hnd⟩ := List.nodup_cons.mp hnd
        refine fileLruPurgeAllLoop_rule hstep (hstep st p s h hp hl hcnt) hnd ?_ hr
        intro q hq
        obtain ⟨rb, -, rfl⟩ := FileLru.leave_eq_some hl
        rw [(SameCache.joinPurged _ p).list]
        have hqp : q ≠ p := fun he => hnot (he ▸ hq)
        exact (List.mem_erase_of_ne hqp).mpr (hmem q (List.mem_cons_of_mem p hq))
      · next hcnt =>
        cases hr
        exact Or.inr ⟨p, st, rfl, h, hp, hl, by simpa using hcnt⟩

theorem fileLruPurgeAll_rule {P : FileLru → Prop} {r : Option Nat}
    (hstep : ∀ st p st', P st → p ∈ st.list → st.leave io p = some st' →
      (st'.entry p).borrowCnt ≠ 0 → P (st'.joinPurged p))
    (h : P st) (hnd : st.list.Nodup) (hr : fileLruPurgeAll io st = some (r, st')) :
    (r = none ∧ P st') ∨ ∃ p s, r = some p ∧ P s ∧ p ∈ s.list ∧ s.leave io p = some st' ∧
      (st'.entry p).borrowCnt = 0 :=
  fileLruPurgeAllLoop_rule hstep h hnd (fun _ hp => hp) hr

theorem CacheInv.evict (h : CacheInv st own) (hp : p ∈ st.list) (hl : st.leave io p = some st') :
    CacheInv (st'.evict p) own :=
  ((h.leave hp hl).mono fun _ hq => Or.inl hq).congr (.evict st' p)

theorem CacheInv.makeRoom (h : CacheInv st own) (hr : fileLruMakeRoom io st p = some st') :
    CacheInv st' own :=
  fileLruMakeRoom_rule (P := fun s => CacheInv s own) (fun _ _ _ h hp hl => h.evict hp hl) h h.nodup hr

/-! ## disk から読む -/

theorem fileLruLoadFromDisk_cases (io : DiskIo) (st : FileLru) (fileName : CStr) :
    fileLruLoadFromDisk io st fileName = (none, st) ∨
      ∃ size : Int, (0 < size ∧ size < 2 ^ 31) ∧
        (fileLruLoadFromDisk io st fileName
            = (none, (st.alloc (.ofFile fileName size io.read)).free st.next) ∨
          fileLruLoadFromDisk io st fileName
            = (some st.next, st.alloc (.ofFile fileName size io.read))) := by
  unfold fileLruLoadFromDisk
  split
  · exact Or.inl rfl
  · split
    · exact Or.inl rfl
    · next buf _ =>
      dsimp only
      split
      · exact Or.inl rfl
      · split
        · exact Or.inl rfl
        · next hsize =>
          split
          · exact Or.inl rfl
          · split
            · exact Or.inl rfl
            · have hupper := (toInt32_bounds buf.stSize).2
              have hlower : 0 < toInt32 buf.stSize := by omega
              refine Or.inr ⟨toInt32 buf.stSize, ⟨hlower, hupper⟩, ?_⟩
              split
              · exact Or.inl rfl
              · split
                · exact Or.inl rfl
                · exact Or.inr rfl

end

/-! ## 呼び手の持つ entry -/

def LruPc.inserting : LruPc → Option Nat
  | insert p => some p
  | _ => none

def LruPc.owned : LruPc → Option Nat
  | insert p => some p
  | free p _ => some p
  | _ => none

section

variable {owner : LruPc → Option Nat} {w w' : LruWorld} {c p : Nat} {k : LruPc}

def LruWorld.Owns (owner : LruPc → Option Nat) (w : LruWorld) (p : Nat) : Prop :=
  ∃ c, owner (w.pc c) = some p

def LruWorld.OwnOnce (owner : LruPc → Option Nat) (w : LruWorld) : Prop :=
  ∀ c c' p, owner (w.pc c) = some p → owner (w.pc c') = some p → c = c'

structure CacheWorld (owner : LruPc → Option Nat) (w : LruWorld) : Prop where
  cache : CacheInv w.lru (w.Owns owner)
  once : w.OwnOnce owner

@[simp] theorem LruWorld.pc_goto_self : (w.goto c k).pc c = k := Function.update_self ..

theorem LruWorld.pc_goto_of_ne {c' : Nat} (h : c' ≠ c) : (w.goto c k).pc c' = w.pc c' :=
  Function.update_of_ne h _ _

theorem LruWorld.OwnOnce.owns_goto (h : w.OwnOnce owner) (hown : (w.goto c k).Owns owner p) :
    owner k = some p ∨ (w.Owns owner p ∧ owner (w.pc c) ≠ some p) := by
  obtain ⟨c', hc'⟩ := hown
  by_cases hcc : c' = c
  · subst hcc
    rw [pc_goto_self] at hc'
    exact Or.inl hc'
  · rw [pc_goto_of_ne hcc] at hc'
    exact Or.inr ⟨⟨c', hc'⟩, fun hc => hcc (h c' c p hc' hc)⟩

theorem LruWorld.OwnOnce.goto (h : w.OwnOnce owner)
    (hfresh : ∀ q, owner k = some q → ¬ w.Owns owner q ∨ owner (w.pc c) = some q) :
    (w.goto c k).OwnOnce owner := by
  have hother : ∀ c' q, c' ≠ c → owner k = some q → owner (w.pc c') ≠ some q := by
    intro c' q hne hq hc'
    rcases hfresh q hq with hnot | hc
    · exact hnot ⟨c', hc'⟩
    · exact hne (h c' c q hc' hc)
  intro c1 c2 q h1 h2
  by_cases hc1 : c1 = c
  · by_cases hc2 : c2 = c
    · rw [hc1, hc2]
    · subst hc1
      rw [pc_goto_self] at h1
      rw [pc_goto_of_ne hc2] at h2
      exact absurd h2 (hother c2 q hc2 h1)
  · rw [pc_goto_of_ne hc1] at h1
    by_cases hc2 : c2 = c
    · subst hc2
      rw [pc_goto_self] at h2
      exact absurd h1 (hother c1 q hc1 h2)
    · rw [pc_goto_of_ne hc2] at h2
      exact h c1 c2 q h1 h2

theorem CacheWorld.move (h : CacheWorld owner w) {own : Nat → Prop} (hc : CacheInv w'.lru own)
    (hpc : w'.pc = Function.update w.pc c k)
    (hown : ∀ q, owner k = some q ∨ (w.Owns owner q ∧ owner (w.pc c) ≠ some q) → own q)
    (hfresh : ∀ q, owner k = some q → ¬ w.Owns owner q ∨ owner (w.pc c) = some q) :
    CacheWorld owner w' := by
  have howns : ∀ q, w'.Owns owner q → (w.goto c k).Owns owner q := by
    rintro q ⟨c', hc'⟩
    rw [hpc] at hc'
    exact ⟨c', hc'⟩
  refine ⟨hc.mono fun q hq => hown q (h.once.owns_goto (howns q hq)), ?_⟩
  intro c1 c2 q h1 h2
  rw [hpc] at h1 h2
  exact h.once.goto hfresh c1 c2 q h1 h2

theorem CacheWorld.drop (h : CacheWorld owner w) (hc : CacheInv w'.lru (w.Owns owner))
    (hpc : w'.pc = Function.update w.pc c k) (hnone : owner k = none) : CacheWorld owner w' := by
  refine h.move hc hpc ?_ ?_
  · rintro q (hq | ⟨hq, -⟩)
    · rw [hnone] at hq
      cases hq
    · exact hq
  · intro q hq
    rw [hnone] at hq
    cases hq

end

/-! ## 一歩 -/

section

variable {st st' : FileLru} {own : Nat → Prop} {io : ForestIo Nat} {p : Nat}

theorem fileLruBorrowFind_same (st : FileLru) (fileName : CStr) :
    SameCache st (fileLruBorrowFind st fileName).2 := by
  unfold fileLruBorrowFind
  split
  · exact .refl st
  · split
    · exact .borrowInc st _
    · exact .refl st

theorem fileLruReturn_same (st : FileLru) (p : Nat) : SameCache st (fileLruReturn st p).2 := by
  have hset : SameCache st (st.setEntry p
      { st.entry p with borrowCnt := toInt32 ((st.entry p).borrowCnt - 1) }) := .setEntry rfl rfl
  unfold fileLruReturn
  dsimp only
  split
  · exact hset
  · split
    · exact hset
    · split
      · exact hset
      · exact hset.trans ⟨rfl, rfl, rfl, fun _ => rfl, fun _ => rfl⟩

theorem fileLruSetup_same (stat : List UInt8 → RootStat) (st : FileLru) (rootPath : List UInt8)
    (max : Int32) : SameCache st (fileLruSetup stat st rootPath max).2 := by
  unfold fileLruSetup
  split
  · exact .refl st
  · split
    · exact .refl st
    · exact .refl st
    · exact ⟨rfl, rfl, rfl, fun _ => rfl, fun _ => rfl⟩

theorem SameCache.free (st : FileLru) (p : Nat) : SameCache st (st.free p) := ⟨rfl, rfl, rfl, fun _ => rfl, fun _ => rfl⟩

theorem CacheInv.purgeAll (h : CacheInv st own) {r : Option Nat}
    (hr : fileLruPurgeAll io st = some (r, st')) : CacheInv st' own := by
  have hstep : ∀ s p s', CacheInv s own → p ∈ s.list → s.leave io p = some s' →
      (s'.entry p).borrowCnt ≠ 0 → CacheInv (s'.joinPurged p) own := fun s p s' hs hp hl _ =>
    ((hs.leave hp hl).mono fun _ hq => Or.inl hq).congr (.joinPurged s' p)
  rcases fileLruPurgeAll_rule hstep h h.nodup hr with ⟨-, h'⟩ | ⟨p, s, -, hs, hp, hl, -⟩
  · exact h'
  · exact (hs.leave hp hl).mono fun _ hq => Or.inl hq

theorem CacheInv.join (h : CacheInv st own) (hp : own p)
    (hj : fileLruBorrowJoin io st p = some st') : CacheInv st' fun q => own q ∧ q ≠ p := by
  unfold fileLruBorrowJoin at hj
  obtain ⟨s, hs, rfl⟩ := Option.map_eq_some_iff.mp hj
  refine CacheInv.insert (h.congr ?_) hp hs
  exact (SameCache.borrowInc st p).trans ⟨rfl, rfl, rfl, fun _ => rfl, fun _ => rfl⟩

theorem fileLruBorrowInsert_cases {r : LruInserted} (hr : fileLruBorrowInsert io st p = some (r, st')) :
    (∃ e, r = .found e ∧ st.rbFind (st.entry p).key = some e ∧
        st' = { st.borrowInc e with list := e :: st.list.erase e }) ∨
      (r = .overflow ∧ st' = st) ∨
      ∃ s, r = .inserted ∧ st.rbFind (st.entry p).key = none ∧
        ¬ (0 < st.lruSizeMax ∧ st.newTotal p < st.lruSizeTotal) ∧
        fileLruMakeRoom io st p = some s ∧ fileLruBorrowJoin io s p = some st' := by
  unfold fileLruBorrowInsert at hr
  split at hr
  · next e he =>
    cases hr
    exact Or.inl ⟨e, rfl, he, rfl⟩
  · next hnone =>
    split at hr
    · cases hr
      exact Or.inr (Or.inl ⟨rfl, rfl⟩)
    · next hfit =>
      obtain ⟨t, ht, hpair⟩ := Option.map_eq_some_iff.mp hr
      obtain ⟨s, hs, hj⟩ := Option.bind_eq_some_iff.mp ht
      cases hpair
      exact Or.inr (Or.inr ⟨s, rfl, hnone, hfit, hs, hj⟩)

end

theorem lruSizeTotal_fileLruBorrowFind (st : FileLru) (fileName : CStr) :
    (fileLruBorrowFind st fileName).2.lruSizeTotal = st.lruSizeTotal := by
  unfold fileLruBorrowFind
  split
  · rfl
  · split <;> rfl

theorem lruSizeTotal_fileLruReturn (st : FileLru) (p : Nat) :
    (fileLruReturn st p).2.lruSizeTotal = st.lruSizeTotal := by
  unfold fileLruReturn
  dsimp only
  split
  · rfl
  · split
    · rfl
    · split <;> rfl

theorem lruSizeTotal_fileLruSetup (stat : List UInt8 → RootStat) (st : FileLru)
    (rootPath : List UInt8) (max : Int32) :
    (fileLruSetup stat st rootPath max).2.lruSizeTotal = st.lruSizeTotal := by
  unfold fileLruSetup
  split
  · rfl
  · split <;> rfl

inductive LruEffect (w : LruWorld) : LruOp → FileLru → Prop where
  | same {op : LruOp} {lru : FileLru} (hs : SameCache w.lru lru)
      (ht : lru.lruSizeTotal = w.lru.lruSizeTotal) : LruEffect w op lru
  | alloc {c : Nat} {io : LruIo} {lru : FileLru} {fileName : CStr} {size : Int}
      (hpc : w.pc c = .load fileName) (hsize : 0 < size ∧ size < 2 ^ 31)
      (hs : SameCache (w.lru.alloc (.ofFile fileName size io.disk.read)) lru)
      (ht : lru.lruSizeTotal = w.lru.lruSizeTotal) : LruEffect w (.run c io) lru
  | head {c : Nat} {io : LruIo} {lru : FileLru} {p e : Nat} (hpc : w.pc c = .insert p)
      (he : w.lru.rbFind (w.lru.entry p).key = some e)
      (hs : lru = { w.lru.borrowInc e with list := e :: w.lru.list.erase e }) :
      LruEffect w (.run c io) lru
  | join {c : Nat} {io : LruIo} {lru s : FileLru} {p : Nat} (hpc : w.pc c = .insert p)
      (hfind : w.lru.rbFind (w.lru.entry p).key = none)
      (hfit : ¬ (0 < w.lru.lruSizeMax ∧ w.lru.newTotal p < w.lru.lruSizeTotal))
      (hroom : fileLruMakeRoom io.rb w.lru p = some s)
      (hjoin : fileLruBorrowJoin io.rb s p = some lru) : LruEffect w (.run c io) lru
  | purge {c : Nat} {io : LruIo} {lru : FileLru} {r : Option Nat} (hpc : w.pc c = .purgeAll)
      (hr : fileLruPurgeAll io.rb w.lru = some (r, lru)) : LruEffect w (.run c io) lru

theorem lruCall_lru {w w' : LruWorld} {c : Nat} {f : LruCall} (hs : lruCall w c f = some w') :
    w'.lru = w.lru := by
  unfold lruCall at hs
  cases f with
  | borrow fileName =>
    dsimp only at hs
    split at hs
    · cases hs
    · split at hs <;> cases hs <;> rfl
  | giveBack p =>
    dsimp only at hs
    split at hs
    · cases hs
    · split at hs <;> cases hs <;> rfl
  | purgeAll =>
    dsimp only at hs
    split at hs
    · cases hs
    · cases hs
      rfl

/-- **どの一歩も、列と木には五つのうちの一つを行う。** -/
theorem lruStep_effect {w w' : LruWorld} {op : LruOp} (hs : lruStep w op = some w') :
    LruEffect w op w'.lru := by
  cases op with
  | call c f =>
    rw [lruCall_lru hs]
    exact .same (.refl _) rfl
  | setup stat rootPath max =>
    cases hs
    exact .same (fileLruSetup_same ..) (lruSizeTotal_fileLruSetup ..)
  | setBloom bf =>
    cases hs
    exact .same ⟨rfl, rfl, rfl, fun _ => rfl, fun _ => rfl⟩ rfl
  | run c io =>
    have hs : lruRun w c io = some w' := hs
    unfold lruRun at hs
    cases hpc : w.pc c with
    | idle =>
      simp only [hpc] at hs
      cases hs
    | borrow fileName =>
      simp only [hpc] at hs
      have hsame := fileLruBorrowFind_same w.lru fileName
      have htotal := lruSizeTotal_fileLruBorrowFind w.lru fileName
      rcases hr : fileLruBorrowFind w.lru fileName with ⟨r, lru⟩
      rw [hr] at hs hsame htotal
      cases r <;> cases hs <;> exact .same hsame htotal
    | load fileName =>
      simp only [hpc] at hs
      rcases fileLruLoadFromDisk_cases io.disk w.lru fileName with hr | ⟨size, hsize, hr | hr⟩
      · rw [hr] at hs
        cases hs
        exact .same (.refl _) rfl
      · rw [hr] at hs
        cases hs
        exact .alloc hpc hsize (.free _ _) rfl
      · rw [hr] at hs
        cases hs
        exact .alloc hpc hsize (.refl _) rfl
    | insert p =>
      simp only [hpc] at hs
      cases hr : fileLruBorrowInsert io.rb w.lru p with
      | none =>
        rw [hr] at hs
        cases hs
      | some r =>
        obtain ⟨r, lru⟩ := r
        rw [hr] at hs
        rcases fileLruBorrowInsert_cases hr with ⟨e, rfl, he, rfl⟩ | ⟨rfl, rfl⟩ |
          ⟨s, rfl, hfind, hfit, hroom, hjoin⟩
        · cases hs
          exact .head hpc he rfl
        · cases hs
          exact .same (.refl _) rfl
        · cases hs
          exact .join hpc hfind hfit hroom hjoin
    | free p again =>
      simp only [hpc] at hs
      cases hs
      exact .same (.free w.lru p) rfl
    | giveBack p =>
      simp only [hpc] at hs
      have hsame := fileLruReturn_same w.lru p
      have htotal := lruSizeTotal_fileLruReturn w.lru p
      rcases hr : fileLruReturn w.lru p with ⟨last, lru⟩
      rw [hr] at hs hsame htotal
      cases hs
      exact .same hsame htotal
    | purgeAll =>
      simp only [hpc] at hs
      cases hr : fileLruPurgeAll io.rb w.lru with
      | none =>
        rw [hr] at hs
        cases hs
      | some r =>
        obtain ⟨r, lru⟩ := r
        rw [hr] at hs
        cases r <;> cases hs <;> exact .purge hpc hr

/-- **列と木の不変量は、どの一歩でも保たれる。** -/
theorem cacheWorld_step {w w' : LruWorld} (h : CacheWorld LruPc.inserting w) (op : LruOp)
    (hs : lruStep w op = some w') : CacheWorld LruPc.inserting w' := by
  have hcache := h.cache
  cases op with
  | call c f =>
    have hs : lruCall w c f = some w' := hs
    cases f with
    | borrow fileName =>
      simp only [lruCall] at hs
      split at hs
      · cases hs
      · split at hs
        · cases hs
          exact h
        · cases hs
          exact h.drop hcache rfl rfl
    | giveBack p =>
      simp only [lruCall] at hs
      split at hs
      · cases hs
      · split at hs
        · cases hs
          exact h.drop hcache rfl rfl
        · cases hs
          exact h
    | purgeAll =>
      simp only [lruCall] at hs
      split at hs
      · cases hs
      · cases hs
        exact h.drop hcache rfl rfl
  | setup stat rootPath max =>
    cases hs
    exact ⟨hcache.congr (fileLruSetup_same ..), h.once⟩
  | setBloom bf =>
    cases hs
    exact ⟨hcache.congr ⟨rfl, rfl, rfl, fun _ => rfl, fun _ => rfl⟩, h.once⟩
  | run c io =>
    have hs : lruRun w c io = some w' := hs
    unfold lruRun at hs
    cases hpc : w.pc c with
    | idle => simp only [hpc] at hs; cases hs
    | borrow fileName =>
      simp only [hpc] at hs
      have hsame := hcache.congr (fileLruBorrowFind_same w.lru fileName)
      rcases hr : fileLruBorrowFind w.lru fileName with ⟨r, lru⟩
      rw [hr] at hs hsame
      cases r <;> cases hs <;> exact h.drop hsame rfl rfl
    | load fileName =>
      simp only [hpc] at hs
      rcases fileLruLoadFromDisk_cases io.disk w.lru fileName with hr | ⟨size, hsize, hr | hr⟩
      · rw [hr] at hs
        cases hs
        exact h.drop hcache rfl rfl
      · rw [hr] at hs
        cases hs
        refine h.drop (((hcache.alloc ?_).mono fun _ hq => Or.inl hq).congr (.free _ _)) rfl rfl
        exact hsize
      · rw [hr] at hs
        cases hs
        -- 新しい block は、読んだ呼び手だけが持つ
        refine h.move (k := .insert w.lru.next)
          (hcache.alloc (e := .ofFile fileName size io.disk.read) hsize) rfl ?_ ?_
        · rintro q (hq | ⟨hq, -⟩)
          · exact Or.inr (Option.some.inj hq).symm
          · exact Or.inl hq
        · intro q hq
          cases hq
          exact Or.inl fun hown => lt_irrefl _ (hcache.own_lt _ hown)
    | insert p =>
      simp only [hpc] at hs
      have hp : w.Owns LruPc.inserting p := ⟨c, by rw [hpc]; rfl⟩
      cases hr : fileLruBorrowInsert io.rb w.lru p with
      | none =>
        rw [hr] at hs
        cases hs
      | some r =>
        obtain ⟨r, lru⟩ := r
        rw [hr] at hs
        rcases fileLruBorrowInsert_cases hr with ⟨e, rfl, he, rfl⟩ | ⟨rfl, rfl⟩ |
          ⟨s, rfl, -, -, hroom, hjoin⟩
        · cases hs
          have hinc := hcache.congr (.borrowInc w.lru e)
          exact h.drop (hinc.toHead (hcache.mem_of_rbFind he).1) rfl rfl
        · cases hs
          exact h.drop hcache rfl rfl
        · cases hs
          refine h.move ((hcache.makeRoom hroom).join hp hjoin) rfl ?_ ?_
          · rintro q (hq | ⟨hq, hne⟩)
            · cases hq
            · refine ⟨hq, fun he => hne ?_⟩
              rw [he, hpc]
              rfl
          · intro q hq
            cases hq
    | free p again =>
      simp only [hpc] at hs
      cases hs
      refine h.drop (hcache.congr (.free w.lru p)) rfl ?_
      cases again <;> rfl
    | giveBack p =>
      simp only [hpc] at hs
      have hsame := hcache.congr (fileLruReturn_same w.lru p)
      rcases hr : fileLruReturn w.lru p with ⟨last, lru⟩
      rw [hr] at hs hsame
      cases hs
      refine h.drop hsame rfl ?_
      cases last <;> rfl
    | purgeAll =>
      simp only [hpc] at hs
      cases hr : fileLruPurgeAll io.rb w.lru with
      | none =>
        rw [hr] at hs
        cases hs
      | some r =>
        obtain ⟨r, lru⟩ := r
        have hpurge := hcache.purgeAll hr
        rw [hr] at hs
        cases r <;> cases hs <;> exact h.drop hpurge rfl rfl

theorem cacheWorld_init (owner : LruPc → Option Nat) (hidle : owner .idle = none) :
    CacheWorld owner .init where
  cache := by
    refine ⟨List.nodup_nil, List.Perm.refl _, fun p hp => absurd hp List.not_mem_nil, ?_, ?_, ?_⟩
    · rintro p ⟨c, hc⟩
      have hc : owner .idle = some p := hc
      rw [hidle] at hc
      cases hc
    · intro p _ hp
      cases hp
    · intro p hp
      exact absurd hp (Nat.not_lt_zero p)
  once c c' p hc := by
    have hc : owner .idle = some p := hc
    rw [hidle] at hc
    cases hc

end Esq
