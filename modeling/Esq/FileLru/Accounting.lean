import Esq.FileLru.Invariant
import Mathlib.Algebra.BigOperators.Group.List.Basic
import Mathlib.Algebra.Order.BigOperators.Group.List

/-!
# cache の大きさ

`lru_size_total` は列にある entry の大きさの和であり、列と木には同じ entry がある（`Accounted`）。

どの一歩の後でもこれが成り立つのは、次の三つを避けるときに限る（`accountOk`）。

* `file_lru_purge_all` は entry を外しても `lru_size_total` を減らさない。
* 上限の無いときは、和が `int` をあふれる。
* 場所を空けた後の木で同じ名前の entry に着くと、新しい entry は列にだけ入る。
-/

namespace Esq

open Infra

/-! ## 列の大きさ -/

def FileLru.listSize (st : FileLru) : Int := (st.list.map fun p => (st.entry p).fileSize).sum

/-- 大きさの和が合い、列と木の entry が同じである。 -/
structure Accounted (st : FileLru) : Prop where
  total : st.lruSizeTotal = st.listSize
  tree : ∀ p, p ∈ st.rb.root.toList ↔ p ∈ st.list

def accountOk (w : LruWorld) : LruOp → Prop
  | .run c io =>
    match w.pc c with
    | .purgeAll => w.lru.list = []
    | .insert p => w.lru.rbFind (w.lru.entry p).key = none →
        (w.lru.lruSizeMax ≤ 0 → w.lru.lruSizeTotal + (w.lru.entry p).fileSize < 2 ^ 31) ∧
        ∀ st, fileLruMakeRoom io.rb w.lru p = some st → st.rbFind (w.lru.entry p).key = none
    | _ => True
  | _ => True

/-! ## 和の合う間 -/

structure AccountInv (st : FileLru) (own : Nat → Prop) : Prop extends CacheInv st own where
  lost : st.rb.lost = []
  total : st.lruSizeTotal = st.listSize
  total_lt : st.lruSizeTotal < 2 ^ 31

section

variable {st st' : FileLru} {own : Nat → Prop} {p : Nat} {io : ForestIo Nat}

theorem FileLru.listSize_erase (hp : p ∈ st.list) :
    st.listSize = (st.entry p).fileSize + ((st.list.erase p).map fun q => (st.entry q).fileSize).sum := by
  unfold listSize
  have hperm := (List.perm_cons_erase hp).map fun q => (st.entry q).fileSize
  rw [hperm.sum_eq, List.map_cons, List.sum_cons]

theorem CacheInv.listSize_nonneg (h : CacheInv st own) : 0 ≤ st.listSize := by
  unfold FileLru.listSize
  refine List.sum_nonneg ?_
  intro x hx
  obtain ⟨p, hp, rfl⟩ := List.mem_map.mp hx
  exact (h.size p (h.list_lt p hp)).1.le

theorem CacheInv.listSize_alloc (h : CacheInv st own) (e : FileLruEntry) :
    (st.alloc e).listSize = st.listSize := by
  unfold FileLru.listSize
  congr 1
  refine List.map_congr_left fun q hq => ?_
  have hne : q ≠ st.next := (h.list_lt q hq).ne
  exact congrArg FileLruEntry.fileSize (Function.update_of_ne hne _ _)

theorem SameCache.listSize (hs : SameCache st st') : st'.listSize = st.listSize := by
  unfold FileLru.listSize
  rw [hs.list]
  simp only [hs.size]

theorem CacheInv.mem_root (h : CacheInv st own) (hlost : st.rb.lost = []) :
    p ∈ st.rb.root.toList ↔ p ∈ st.list := by
  rw [← SearchForest.toList_of_lost_nil hlost]
  exact h.forest.mem_iff

theorem AccountInv.accounted (h : AccountInv st own) : Accounted st where
  total := h.total
  tree _ := h.mem_root h.lost

theorem AccountInv.congr (h : AccountInv st own) (hs : SameCache st st')
    (ht : st'.lruSizeTotal = st.lruSizeTotal) : AccountInv st' own where
  toCacheInv := h.toCacheInv.congr hs
  lost := by
    rw [hs.rb]
    exact h.lost
  total := by
    rw [ht, h.total, hs.listSize]
  total_lt := by
    rw [ht]
    exact h.total_lt

theorem CacheInv.leave_of_lost_nil (h : CacheInv st own) (hlost : st.rb.lost = []) (hp : p ∈ st.list)
    (io : ForestIo Nat) : st.leave io p =
      some { st with list := st.list.erase p, rb := ⟨(st.rb.root.erase p).rotate io.rotate, []⟩ } := by
  unfold FileLru.leave
  rw [SearchForest.remove_of_lost_nil hlost ((h.mem_root hlost).mpr hp)]
  rfl

theorem CacheInv.lost_leave (h : CacheInv st own) (hlost : st.rb.lost = []) (hp : p ∈ st.list)
    (hl : st.leave io p = some st') : st'.rb.lost = [] := by
  rw [h.leave_of_lost_nil hlost hp] at hl
  cases hl
  rfl

theorem FileLru.listSize_leave (hp : p ∈ st.list)
    (hl : st.leave io p = some st') : st'.listSize = st.listSize - (st.entry p).fileSize := by
  have herase := FileLru.listSize_erase hp
  obtain ⟨rb, -, rfl⟩ := FileLru.leave_eq_some hl
  show ((st.list.erase p).map fun q => (st.entry q).fileSize).sum = _
  omega

theorem AccountInv.evict (h : AccountInv st own) (hp : p ∈ st.list) (hl : st.leave io p = some st') :
    AccountInv (st'.evict p) own ∧ (st'.evict p).lruSizeTotal ≤ st.lruSizeTotal := by
  have hcache := h.toCacheInv.leave hp hl
  have hlost := h.toCacheInv.lost_leave h.lost hp hl
  have hsize := FileLru.listSize_leave hp hl
  have hnonneg := hcache.listSize_nonneg
  have hpos := h.size p (h.list_lt p hp)
  have hsame := SameCache.evict st' p
  have htotal : (st'.evict p).lruSizeTotal = toInt32 (st'.lruSizeTotal - (st'.entry p).fileSize) := by
    unfold FileLru.evict
    dsimp only
    split <;> rfl
  have hold : st'.lruSizeTotal = st.lruSizeTotal ∧ (st'.entry p).fileSize = (st.entry p).fileSize := by
    obtain ⟨rb, -, rfl⟩ := FileLru.leave_eq_some hl
    exact ⟨rfl, rfl⟩
  have hlt := h.total_lt
  have heq := h.total
  rw [hold.1, hold.2, toInt32_of_range (by omega) (by omega)] at htotal
  refine ⟨⟨(hcache.mono fun _ hq => Or.inl hq).congr hsame, ?_, ?_, by omega⟩, by omega⟩
  · rw [hsame.rb]
    exact hlost
  · rw [htotal, hsame.listSize, hsize, heq]

theorem AccountInv.makeRoom (h : AccountInv st own) (hr : fileLruMakeRoom io st p = some st') :
    AccountInv st' own ∧ st'.lruSizeTotal ≤ st.lruSizeTotal ∧
      (∀ q, (st'.entry q).fileSize = (st.entry q).fileSize) ∧
      ∀ q, (st'.entry q).key = (st.entry q).key := by
  refine fileLruMakeRoom_rule (P := fun s => AccountInv s own ∧ s.lruSizeTotal ≤ st.lruSizeTotal ∧
      (∀ q, (s.entry q).fileSize = (st.entry q).fileSize) ∧
      ∀ q, (s.entry q).key = (st.entry q).key) ?_ ⟨h, le_refl _, fun _ => rfl, fun _ => rfl⟩ h.nodup hr
  rintro s q s' ⟨hs, hle, hsize, hkey⟩ hq hl
  obtain ⟨hinv, hle'⟩ := hs.evict hq hl
  have hsame := SameCache.evict s' q
  have hentry : s'.entry = s.entry := by
    obtain ⟨rb, -, rfl⟩ := FileLru.leave_eq_some hl
    rfl
  refine ⟨hinv, le_trans hle' hle, fun x => ?_, fun x => ?_⟩
  · rw [hsame.size, hentry, hsize]
  · rw [hsame.key, hentry, hkey]

theorem fileLruPurgeLoop_total (io : ForestIo Nat) {n : Int} : ∀ {ps : List Nat} {st : FileLru}, CacheInv st own →
    st.rb.lost = [] → ps.Nodup → (∀ p ∈ ps, p ∈ st.list) →
    ∃ st', fileLruPurgeLoop io n ps st = some st'
  | [], st, _, _, _, _ => ⟨st, rfl⟩
  | p :: ps, st, h, hlost, hnd, hmem => by
    unfold fileLruPurgeLoop
    split
    · have hp := hmem p List.mem_cons_self
      have hl := h.leave_of_lost_nil hlost hp io
      have hevict := h.evict hp hl
      have hsame := SameCache.evict
        { st with list := st.list.erase p, rb := ⟨(st.rb.root.erase p).rotate io.rotate, []⟩ } p
      obtain ⟨hnot, hnd⟩ := List.nodup_cons.mp hnd
      obtain ⟨st', hst'⟩ := fileLruPurgeLoop_total io (n := n) hevict (by rw [hsame.rb]) hnd
        (fun q hq => by
          rw [hsame.list]
          have hqp : q ≠ p := fun he => hnot (he ▸ hq)
          exact (List.mem_erase_of_ne hqp).mpr (hmem q (List.mem_cons_of_mem p hq)))
      rw [hl]
      refine ⟨st', ?_⟩
      unfold FileLru.evict at hst'
      dsimp only at hst' ⊢
      split
      · rw [if_pos ‹_›] at hst'
        exact hst'
      · rw [if_neg ‹_›] at hst'
        exact hst'
    · exact ⟨st, rfl⟩

theorem fileLruMakeRoom_total (h : CacheInv st own) (hlost : st.rb.lost = []) (io : ForestIo Nat)
    (p : Nat) : ∃ st', fileLruMakeRoom io st p = some st' := by
  unfold fileLruMakeRoom fileLruPurge
  split
  · exact fileLruPurgeLoop_total io h hlost (List.nodup_reverse.mpr h.nodup) fun _ hp =>
      List.mem_reverse.mp hp
  · exact ⟨st, rfl⟩

def FileLru.counted (st : FileLru) (p : Nat) : FileLru :=
  let st := st.borrowInc p
  { st with lruSizeTotal := toInt32 (st.lruSizeTotal + (st.entry p).fileSize) }

theorem SameCache.counted (st : FileLru) (p : Nat) : SameCache st (st.counted p) :=
  (SameCache.borrowInc st p).trans ⟨rfl, rfl, rfl, fun _ => rfl, fun _ => rfl⟩

theorem fileLruBorrowJoin_eq (io : ForestIo Nat) (st : FileLru) (p : Nat) :
    fileLruBorrowJoin io st p
      = ((st.counted p).rbInsert io p).map fun st => { st with list := p :: st.list } := rfl

theorem FileLru.find_counted (st : FileLru) (p : Nat) :
    (st.counted p).rb.find (fun x => fileLruNameCmp ((st.counted p).entry p).key
      ((st.counted p).entry x).key) = st.rbFind (st.entry p).key := by
  have hsame := SameCache.counted st p
  unfold FileLru.rbFind
  simp only [hsame.key, hsame.rb]

theorem AccountInv.join (h : AccountInv st own) (hp : own p)
    (hfind : st.rbFind (st.entry p).key = none)
    (hfit : st.lruSizeTotal + (st.entry p).fileSize < 2 ^ 31)
    (hj : fileLruBorrowJoin io st p = some st') : AccountInv st' fun q => own q ∧ q ≠ p := by
  have hcache := h.toCacheInv.join hp hj
  have hsame := SameCache.counted st p
  have hnonneg := h.toCacheInv.listSize_nonneg
  have hpos := h.size p (h.own_lt p hp)
  have heq := h.total
  have htotal : (st.counted p).lruSizeTotal = st.lruSizeTotal + (st.entry p).fileSize := by
    have hc : (st.counted p).lruSizeTotal
        = toInt32 (st.lruSizeTotal + ((st.borrowInc p).entry p).fileSize) := rfl
    rw [hc, (SameCache.borrowInc st p).size, toInt32_of_range (by omega) (by omega)]
  rw [fileLruBorrowJoin_eq] at hj
  unfold FileLru.rbInsert at hj
  rw [SearchForest.insert_of_find_none (by rw [hsame.rb]; exact h.lost)
    (by rw [FileLru.find_counted]; exact hfind)] at hj
  cases hj
  refine ⟨hcache, rfl, ?_, ?_⟩
  · show (st.counted p).lruSizeTotal = ((p :: (st.counted p).list).map fun q =>
      ((st.counted p).entry q).fileSize).sum
    have hlist : ((st.counted p).list.map fun q => ((st.counted p).entry q).fileSize).sum
        = st.listSize := hsame.listSize
    rw [List.map_cons, List.sum_cons, hlist, htotal, hsame.size, heq]
    omega
  · show (st.counted p).lruSizeTotal < 2 ^ 31
    omega

theorem CacheInv.join_of_found (h : CacheInv st own) (io : ForestIo Nat) (hlost : st.rb.lost = [])
    (hp : own p) {e : Nat} (hfind : st.rbFind (st.entry p).key = some e) :
    ∃ st', fileLruBorrowJoin io st p = some st' ∧ ¬ Accounted st' := by
  have hsame := SameCache.counted st p
  rw [fileLruBorrowJoin_eq]
  unfold FileLru.rbInsert
  rw [SearchForest.insert_of_find_some (by rw [hsame.rb]; exact hlost)
    (by rw [FileLru.find_counted]; exact hfind)]
  refine ⟨_, rfl, fun hacc => h.own_not p hp ?_⟩
  have hm : p ∈ (st.counted p).rb.root.toList := (hacc.tree p).mpr List.mem_cons_self
  rw [hsame.rb] at hm
  exact (h.mem_root hlost).mp hm

theorem AccountInv.join_of_overflow (h : AccountInv st own) (io : ForestIo Nat) (hp : own p)
    (hfind : st.rbFind (st.entry p).key = none)
    (hover : 2 ^ 31 ≤ st.lruSizeTotal + (st.entry p).fileSize) :
    ∃ st', fileLruBorrowJoin io st p = some st' ∧ ¬ Accounted st' := by
  have hsame := SameCache.counted st p
  have hpos := h.size p (h.own_lt p hp)
  have hlt := h.total_lt
  have heq := h.total
  rw [fileLruBorrowJoin_eq]
  unfold FileLru.rbInsert
  rw [SearchForest.insert_of_find_none (by rw [hsame.rb]; exact h.lost)
    (by rw [FileLru.find_counted]; exact hfind)]
  refine ⟨_, rfl, fun hacc => ?_⟩
  have htotal : (st.counted p).lruSizeTotal = ((p :: (st.counted p).list).map fun q =>
      ((st.counted p).entry q).fileSize).sum := hacc.total
  have hlist : ((st.counted p).list.map fun q => ((st.counted p).entry q).fileSize).sum
      = st.listSize := hsame.listSize
  have hc : (st.counted p).lruSizeTotal
      = toInt32 (st.lruSizeTotal + ((st.borrowInc p).entry p).fileSize) := rfl
  rw [List.map_cons, List.sum_cons, hlist, hsame.size, hc, (SameCache.borrowInc st p).size] at htotal
  have hbound := (toInt32_bounds (st.lruSizeTotal + (st.entry p).fileSize)).2
  omega

theorem AccountInv.alloc (h : AccountInv st own) {e : FileLruEntry}
    (he : 0 < e.fileSize ∧ e.fileSize < 2 ^ 31) :
    AccountInv (st.alloc e) fun q => own q ∨ q = st.next where
  toCacheInv := h.toCacheInv.alloc he
  lost := h.lost
  total := by
    rw [h.toCacheInv.listSize_alloc e]
    exact h.total
  total_lt := h.total_lt

theorem AccountInv.toHead (h : AccountInv st own) (hp : p ∈ st.list) :
    AccountInv { st with list := p :: st.list.erase p } own where
  toCacheInv := h.toCacheInv.toHead hp
  lost := h.lost
  total := by
    have herase := FileLru.listSize_erase hp
    show st.lruSizeTotal = ((p :: st.list.erase p).map fun q => (st.entry q).fileSize).sum
    rw [List.map_cons, List.sum_cons, h.total, herase]
  total_lt := h.total_lt

theorem AccountInv.mono (h : AccountInv st own) {own' : Nat → Prop} (hc : CacheInv st own') :
    AccountInv st own' :=
  { hc with lost := h.lost, total := h.total, total_lt := h.total_lt }

/-! ## 全体の purge -/

/-- 列にある entry の和が `lru_size_total` より小さい。 -/
structure Drifted (st : FileLru) (own : Nat → Prop) : Prop extends CacheInv st own where
  lost : st.rb.lost = []
  less : st.listSize < st.lruSizeTotal

theorem Drifted.not_accounted (h : Drifted st own) : ¬ Accounted st := by
  intro hacc
  have hless := h.less
  have htotal := hacc.total
  omega

theorem lruSizeTotal_leave (hl : st.leave io p = some st') : st'.lruSizeTotal = st.lruSizeTotal := by
  obtain ⟨rb, -, rfl⟩ := FileLru.leave_eq_some hl
  rfl

theorem AccountInv.drifted_leave (h : AccountInv st own) (hp : p ∈ st.list)
    (hl : st.leave io p = some st') : Drifted st' own where
  toCacheInv := (h.toCacheInv.leave hp hl).mono fun _ hq => Or.inl hq
  lost := h.toCacheInv.lost_leave h.lost hp hl
  less := by
    have hpos := (h.size p (h.list_lt p hp)).1
    rw [FileLru.listSize_leave hp hl, lruSizeTotal_leave hl, h.total]
    omega

theorem Drifted.leave (h : Drifted st own) (hp : p ∈ st.list) (hl : st.leave io p = some st') :
    Drifted st' own where
  toCacheInv := (h.toCacheInv.leave hp hl).mono fun _ hq => Or.inl hq
  lost := h.toCacheInv.lost_leave h.lost hp hl
  less := by
    have hpos := (h.size p (h.list_lt p hp)).1
    have hless := h.less
    rw [FileLru.listSize_leave hp hl, lruSizeTotal_leave hl]
    omega

theorem Drifted.joinPurged (h : Drifted st own) (p : Nat) : Drifted (st.joinPurged p) own where
  toCacheInv := h.toCacheInv.congr (.joinPurged st p)
  lost := h.lost
  less := by
    rw [(SameCache.joinPurged st p).listSize]
    exact h.less

theorem Drifted.purgeAllLoop (io : ForestIo Nat) : ∀ {ps : List Nat} {st : FileLru},
    Drifted st own → ps.Nodup → (∀ p ∈ ps, p ∈ st.list) →
    ∃ r st', fileLruPurgeAllLoop io ps st = some (r, st') ∧ Drifted st' own
  | [], st, h, _, _ => ⟨none, st, rfl, h⟩
  | p :: ps, st, h, hnd, hmem => by
    have hp := hmem p List.mem_cons_self
    obtain ⟨s, hs⟩ : ∃ s, st.leave io p = some s := ⟨_, h.toCacheInv.leave_of_lost_nil h.lost hp io⟩
    have hleft := h.leave hp hs
    unfold fileLruPurgeAllLoop
    rw [hs]
    dsimp only
    split
    · obtain ⟨hnot, hnd⟩ := List.nodup_cons.mp hnd
      refine Drifted.purgeAllLoop io (hleft.joinPurged p) hnd ?_
      intro q hq
      obtain ⟨rb, -, rfl⟩ := FileLru.leave_eq_some hs
      rw [(SameCache.joinPurged _ p).list]
      have hqp : q ≠ p := fun he => hnot (he ▸ hq)
      exact (List.mem_erase_of_ne hqp).mpr (hmem q (List.mem_cons_of_mem p hq))
    · exact ⟨some p, s, rfl, hleft⟩

/-- **全体の purge は、entry があれば和を崩す。** -/
theorem AccountInv.purgeAll_breaks (h : AccountInv st own) (io : ForestIo Nat) (hne : st.list ≠ []) :
    ∃ r st', fileLruPurgeAll io st = some (r, st') ∧ Drifted st' own := by
  obtain ⟨p, ps, hps⟩ := List.exists_cons_of_ne_nil hne
  have hp : p ∈ st.list := hps ▸ List.mem_cons_self
  obtain ⟨s, hs⟩ : ∃ s, st.leave io p = some s := ⟨_, h.toCacheInv.leave_of_lost_nil h.lost hp io⟩
  have hleft := h.drifted_leave hp hs
  have hlist : s.list = ps := by
    obtain ⟨rb, -, rfl⟩ := FileLru.leave_eq_some hs
    show st.list.erase p = ps
    rw [hps, List.erase_cons_head]
  unfold fileLruPurgeAll fileLruPurgeAllLoop
  rw [hps]
  dsimp only
  rw [hs]
  dsimp only
  split
  · have hnd := h.nodup
    rw [hps] at hnd
    refine (hleft.joinPurged p).purgeAllLoop io (List.nodup_cons.mp hnd).2 ?_
    intro q hq
    rw [(SameCache.joinPurged s p).list, hlist]
    exact hq
  · exact ⟨some p, s, rfl, hleft⟩

/-! ## 一歩 -/

theorem AccountInv.insert (h : AccountInv st own) (hp : own p) {s : FileLru}
    (hlimit : st.lruSizeMax ≤ 0 → st.lruSizeTotal + (st.entry p).fileSize < 2 ^ 31)
    (hfit : ¬ (0 < st.lruSizeMax ∧ st.newTotal p < st.lruSizeTotal))
    (hroom : fileLruMakeRoom io st p = some s) (hfresh : s.rbFind (st.entry p).key = none)
    (hj : fileLruBorrowJoin io s p = some st') : AccountInv st' fun q => own q ∧ q ≠ p := by
  obtain ⟨hs, hle, hsize, hkey⟩ := h.makeRoom hroom
  refine hs.join hp ?_ ?_ hj
  · rw [hkey]
    exact hfresh
  · have hpos := h.size p (h.own_lt p hp)
    have hlt := h.total_lt
    have hnonneg := h.toCacheInv.listSize_nonneg
    have heq := h.total
    rw [hsize]
    by_cases hmax : st.lruSizeMax ≤ 0
    · have := hlimit hmax
      omega
    · -- 上限があれば、あふれた和は前より小さく、入れる所に来ない
      unfold FileLru.newTotal at hfit
      rw [toInt32_eq] at hfit
      omega

theorem AccountInv.insert_breaks (h : AccountInv st own) (hp : own p)
    (hbad : ¬ (st.rbFind (st.entry p).key = none →
      (st.lruSizeMax ≤ 0 → st.lruSizeTotal + (st.entry p).fileSize < 2 ^ 31) ∧
      ∀ s, fileLruMakeRoom io st p = some s → s.rbFind (st.entry p).key = none)) :
    ∃ st', fileLruBorrowInsert io st p = some (.inserted, st') ∧ ¬ Accounted st' := by
  have hbad := Classical.not_imp.mp hbad
  obtain ⟨hfind, hbad⟩ := hbad
  obtain ⟨s, hs⟩ := fileLruMakeRoom_total h.toCacheInv h.lost io p
  obtain ⟨hinv, -, hsize, hkey⟩ := h.makeRoom hs
  have hpos := h.size p (h.own_lt p hp)
  have hlt := h.total_lt
  have hnonneg := h.toCacheInv.listSize_nonneg
  have heq := h.total
  by_cases hmax : st.lruSizeMax ≤ 0
  · -- 上限が無いときは、場所を空けない
    have hsame : s = st := by
      unfold fileLruMakeRoom at hs
      rw [if_neg (by omega)] at hs
      exact (Option.some.inj hs).symm
    subst hsame
    have hover : 2 ^ 31 ≤ s.lruSizeTotal + (s.entry p).fileSize := by
      by_contra hno
      refine hbad ⟨fun _ => by omega, fun t ht => ?_⟩
      rw [hs] at ht
      cases ht
      exact hfind
    obtain ⟨st', hj, hnot⟩ := h.join_of_overflow io hp hfind hover
    refine ⟨st', ?_, hnot⟩
    unfold fileLruBorrowInsert
    rw [hfind]
    dsimp only
    rw [if_neg (by omega), hs, Option.bind_some, hj]
    rfl
  · obtain ⟨e, he⟩ : ∃ e, s.rbFind (st.entry p).key = some e := by
      by_contra hno
      refine hbad ⟨fun hm => absurd hm hmax, fun t ht => ?_⟩
      rw [hs] at ht
      cases ht
      exact Option.eq_none_iff_forall_ne_some.mpr fun e he => hno ⟨e, he⟩
    have hfit : ¬ (0 < st.lruSizeMax ∧ st.newTotal p < st.lruSizeTotal) := by
      rintro ⟨-, hover⟩
      -- あふれていれば場所を空けず、木は変わらない
      have hsame : s = st := by
        unfold fileLruMakeRoom at hs
        rw [if_neg] at hs
        · exact (Option.some.inj hs).symm
        · unfold FileLru.newTotal at hover ⊢
          rw [toInt32_eq] at hover ⊢
          omega
      rw [hsame, hfind] at he
      cases he
    have he' : s.rbFind (s.entry p).key = some e := by
      rw [hkey]
      exact he
    obtain ⟨st', hj, hnot⟩ := hinv.toCacheInv.join_of_found io hinv.lost hp he'
    refine ⟨st', ?_, hnot⟩
    unfold fileLruBorrowInsert
    rw [hfind]
    dsimp only
    rw [if_neg hfit, hs, Option.bind_some, hj]
    rfl

end

/-! ## 実行 -/

structure AccountWorld (w : LruWorld) : Prop where
  world : CacheWorld LruPc.inserting w
  account : AccountInv w.lru (w.Owns LruPc.inserting)

section

variable {w w' : LruWorld}

theorem accountWorld_step (h : AccountWorld w) (op : LruOp) (hok : accountOk w op)
    (hs : lruStep w op = some w') : AccountWorld w' := by
  have ha := h.account
  have hworld := cacheWorld_step h.world op hs
  suffices hacc : ∃ own, AccountInv w'.lru own by
    obtain ⟨own, hacc⟩ := hacc
    exact ⟨hworld, hacc.mono hworld.cache⟩
  cases lruStep_effect hs with
  | same hsame ht => exact ⟨_, ha.congr hsame ht⟩
  | alloc hpc hsize hsame ht => exact ⟨_, (ha.alloc hsize).congr hsame ht⟩
  | head hpc he hlru =>
    rw [hlru]
    exact ⟨_, (ha.congr (.borrowInc w.lru _) rfl).toHead (ha.toCacheInv.mem_of_rbFind he).1⟩
  | @join c io _ s p hpc hfind hfit hroom hjoin =>
    simp only [accountOk, hpc] at hok
    obtain ⟨hlimit, hfresh⟩ := hok hfind
    exact ⟨_, ha.insert ⟨c, by rw [hpc]; rfl⟩ hlimit hfit hroom (hfresh s hroom) hjoin⟩
  | purge hpc hr =>
    simp only [accountOk, hpc] at hok
    unfold fileLruPurgeAll at hr
    rw [hok] at hr
    have hlru : w.lru = w'.lru := congrArg Prod.snd (Option.some.inj hr)
    exact ⟨_, hlru ▸ ha⟩

/-- **三つのどれかに当たる一歩の後では、和が合わない。** -/
theorem accountWorld_breaks (h : AccountWorld w) (op : LruOp) (hbad : ¬ accountOk w op) :
    ∃ w', lruStep w op = some w' ∧ ¬ Accounted w'.lru := by
  have ha := h.account
  cases op with
  | call c f => exact absurd trivial hbad
  | setup stat rootPath max => exact absurd trivial hbad
  | setBloom bf => exact absurd trivial hbad
  | run c io =>
    show ∃ w', lruRun w c io = some w' ∧ ¬ Accounted w'.lru
    unfold lruRun
    cases hpc : w.pc c with
    | idle => exact absurd (by simp only [accountOk, hpc]) hbad
    | borrow fileName => exact absurd (by simp only [accountOk, hpc]) hbad
    | load fileName => exact absurd (by simp only [accountOk, hpc]) hbad
    | free p again => exact absurd (by simp only [accountOk, hpc]) hbad
    | giveBack p => exact absurd (by simp only [accountOk, hpc]) hbad
    | insert p =>
      simp only [accountOk, hpc] at hbad
      have hp : w.Owns LruPc.inserting p := ⟨c, by rw [hpc]; rfl⟩
      obtain ⟨lru, hr, hnot⟩ := ha.insert_breaks hp hbad
      dsimp only
      rw [hr]
      exact ⟨_, rfl, hnot⟩
    | purgeAll =>
      simp only [accountOk, hpc] at hbad
      obtain ⟨r, lru, hr, hdrift⟩ := ha.purgeAll_breaks io.rb hbad
      dsimp only
      rw [hr]
      cases r <;> exact ⟨_, rfl, hdrift.not_accounted⟩

theorem accountWorld_init : AccountWorld .init where
  world := cacheWorld_init _ rfl
  account :=
    { (cacheWorld_init LruPc.inserting rfl).cache with
      lost := rfl
      total := rfl
      total_lt := by
        show (0 : Int) < 2 ^ 31
        decide }

end

/--
**どの並びでも、和が合い続けるのは、どの一歩も三つを避けるときであり、そのときに限る。**

`file_lru_setup` と bloom filter の更新は、いつ何度行ってもよい。
-/
theorem file_lru_accounting (ops : List LruOp) :
    Throughout lruStep (fun w => Accounted w.lru) .init ops
      ↔ Along lruStep accountOk .init ops := by
  have hiff : Throughout lruStep (fun w => Accounted w.lru) .init ops ∧
      Along lruStep (fun _ _ => True) .init ops ↔ Along lruStep accountOk .init ops :=
    throughout_and_along_iff (P := AccountWorld)
      (fun w op w' h _ hgood hs => accountWorld_step h op hgood hs) (fun _ _ _ _ _ => trivial)
      (fun w op h _ hbad _ => accountWorld_breaks h op hbad) (fun w h => h.account.accounted)
      accountWorld_init along_true
  exact ⟨fun h => hiff.mp ⟨h, along_true⟩, fun h => (hiff.mpr h).1⟩

/-! ## 例 -/

def DiskIo.sample : DiskIo where
  stat _ := some ⟨true, 5⟩
  mallocOk := true
  openOk := true
  read := [104, 101, 108, 108, 111]

def LruIo.sample : LruIo where
  disk := .sample
  rb := ⟨id, fun _ => false, fun _ => false⟩

def samplePurgeOps : List LruOp :=
  [.setBloom (some (pathBloomFilterNew.addPath [97])), .call 0 (.borrow (.ofBytes [97])),
    .run 0 .sample, .run 0 .sample, .run 0 .sample, .call 0 (.giveBack 0), .run 0 .sample,
    .call 0 .purgeAll, .run 0 .sample]

/-- **purge の後、列は空なのに `lru_size_total` は 5 のままである。** -/
theorem purge_all_keeps_total : ∃ w, runFrom lruStep .init samplePurgeOps = some w ∧
    w.lru.list = [] ∧ w.lru.lruSizeTotal = 5 ∧ ¬ Accounted w.lru := by
  have hrun : (runFrom lruStep .init samplePurgeOps).map (fun w =>
      (w.lru.list, w.lru.lruSizeTotal)) = some ([], 5) := by decide +kernel
  obtain ⟨w, hw, hpair⟩ := Option.map_eq_some_iff.mp hrun
  obtain ⟨hlist, htotal⟩ := Prod.mk.inj hpair
  refine ⟨w, hw, hlist, htotal, fun hacc => ?_⟩
  have hsum := hacc.total
  unfold FileLru.listSize at hsum
  rw [hlist, htotal, List.map_nil, List.sum_nil] at hsum
  exact absurd hsum (by decide)

end Esq
