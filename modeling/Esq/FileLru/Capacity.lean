import Esq.FileLru.Accounting

/-!
# cache の上限

呼び手が一人ずつ進む間（`lruSequential`）、新しい entry を入れた直後の大きさの和は `lru_size_max` を越えない。

`lru_size_total` は和より大きいことがあるが（`file_lru_purge_all` が減らさない）、小さくはならない。追い出しは、
`lru_size_total` が収まるか、列が空になるまで続く（`fileLruPurgeLoop_list`）。列が空になったときは、読む前に
確かめた file の大きさが上限に収まる。
-/

namespace Esq

open Infra

/-! ## 一人ずつの呼び手 -/

def lruSequential (w : LruWorld) : LruOp → Prop
  | .run _ _ => True
  | _ => ∀ c, w.pc c = .idle

/-- `file_lru_borrow` が新しい entry を入れて返る一歩。 -/
def InsertsEntry (w : LruWorld) (op : LruOp) (w' : LruWorld) : Prop :=
  ∃ c io p, op = .run c io ∧ w.pc c = .insert p ∧
    fileLruBorrowInsert io.rb w.lru p = some (.inserted, w'.lru)

def CapacityKept (w : LruWorld) (op : LruOp) : Prop :=
  ∀ w', lruStep w op = some w' → InsertsEntry w op w' → w'.lru.listSize ≤ w'.lru.lruSizeMax

section

variable {st st' : FileLru} {own : Nat → Prop} {p : Nat} {io : ForestIo Nat} {w w' : LruWorld}

/-! ## 追い出しの終わり -/

theorem lruSizeMax_leave (hl : st.leave io p = some st') : st'.lruSizeMax = st.lruSizeMax := by
  obtain ⟨rb, -, rfl⟩ := FileLru.leave_eq_some hl
  rfl

theorem lruSizeMax_evict (st : FileLru) (p : Nat) : (st.evict p).lruSizeMax = st.lruSizeMax := by
  unfold FileLru.evict
  dsimp only
  split <;> rfl

/--
**追い出しは列の後ろから行い、場所が空くか、列が空になって終わる。**

`ps` は列を後ろから数えたものである。
-/
theorem fileLruPurgeLoop_list {n : Int} : ∀ {ps : List Nat} {st st' : FileLru},
    st.list = ps.reverse → ps.Nodup → fileLruPurgeLoop io n ps st = some st' →
    (∃ es, st.list = st'.list ++ es) ∧
      (st'.list = [] ∨ n ≤ toInt32 (st'.lruSizeMax - st'.lruSizeTotal))
  | [], st, st', hlist, _, hr => by
    cases hr
    exact ⟨⟨[], (List.append_nil _).symm⟩, .inl hlist⟩
  | p :: ps, st, st', hlist, hnd, hr => by
    obtain ⟨hp, hnd⟩ := List.nodup_cons.mp hnd
    unfold fileLruPurgeLoop at hr
    split at hr
    · cases hl : st.leave io p with
      | none =>
        rw [hl] at hr
        cases hr
      | some s =>
        have hrun : fileLruPurgeLoop io n ps (s.evict p) = some st' := by
          rw [hl] at hr
          unfold FileLru.evict
          dsimp only at hr ⊢
          split at hr
          · rw [if_pos ‹_›]
            exact hr
          · rw [if_neg ‹_›]
            exact hr
        -- 外した後の列は、残りを後ろから数えたものである
        have hrest : (s.evict p).list = ps.reverse := by
          obtain ⟨rb, -, rfl⟩ := FileLru.leave_eq_some hl
          rw [(SameCache.evict _ p).list]
          show st.list.erase p = ps.reverse
          rw [hlist, List.reverse_cons,
            List.erase_append_right _ (fun h => hp (List.mem_reverse.mp h)), List.erase_cons_head,
            List.append_nil]
        obtain ⟨⟨es, hes⟩, hend⟩ := fileLruPurgeLoop_list hrest hnd hrun
        refine ⟨⟨es ++ [p], ?_⟩, hend⟩
        rw [hlist, List.reverse_cons, ← hrest, hes, List.append_assoc]
    · next hfit =>
      cases hr
      exact ⟨⟨[], (List.append_nil _).symm⟩, .inr (Int.not_lt.mp hfit)⟩

theorem fileLruMakeRoom_list (hnd : st.list.Nodup) (hr : fileLruMakeRoom io st p = some st') :
    (∃ es, st.list = st'.list ++ es) ∧
      ((st' = st ∧ ¬ (0 < st.lruSizeMax ∧ st.newTotal p > st.lruSizeMax)) ∨ st'.list = [] ∨
        (st.entry p).fileSize ≤ toInt32 (st'.lruSizeMax - st'.lruSizeTotal)) := by
  unfold fileLruMakeRoom at hr
  split at hr
  · obtain ⟨hes, hend⟩ := fileLruPurgeLoop_list (List.reverse_reverse _).symm
      (List.nodup_reverse.mpr hnd) hr
    exact ⟨hes, .inr hend⟩
  · next hno =>
    cases hr
    exact ⟨⟨[], (List.append_nil _).symm⟩, .inl ⟨rfl, hno⟩⟩

/-! ## 和は `lru_size_total` を越えない -/

/-- 列の和は `lru_size_total` を越えず、`lru_size_total` は `int` に収まる。 -/
structure WithinTotal (st : FileLru) (own : Nat → Prop) : Prop extends CacheInv st own where
  le : st.listSize ≤ st.lruSizeTotal
  lt : st.lruSizeTotal < 2 ^ 31

theorem WithinTotal.congr (h : WithinTotal st own) (hs : SameCache st st')
    (ht : st'.lruSizeTotal = st.lruSizeTotal) : WithinTotal st' own where
  toCacheInv := h.toCacheInv.congr hs
  le := by
    rw [ht, hs.listSize]
    exact h.le
  lt := by
    rw [ht]
    exact h.lt

theorem WithinTotal.mono (h : WithinTotal st own) {own' : Nat → Prop} (hc : CacheInv st own') :
    WithinTotal st own' :=
  { hc with le := h.le, lt := h.lt }

theorem WithinTotal.evict (h : WithinTotal st own) (hp : p ∈ st.list)
    (hl : st.leave io p = some st') :
    WithinTotal (st'.evict p) own ∧ (st'.evict p).lruSizeTotal ≤ st.lruSizeTotal := by
  have hcache := h.toCacheInv.leave hp hl
  have hsize := FileLru.listSize_leave hp hl
  have hnonneg := hcache.listSize_nonneg
  have hpos := h.size p (h.list_lt p hp)
  have hle := h.le
  have hlt := h.lt
  have hsame := SameCache.evict st' p
  have htotal : (st'.evict p).lruSizeTotal
      = toInt32 (st'.lruSizeTotal - (st'.entry p).fileSize) := by
    unfold FileLru.evict
    dsimp only
    split <;> rfl
  have hentry : (st'.entry p).fileSize = (st.entry p).fileSize := by
    obtain ⟨rb, -, rfl⟩ := FileLru.leave_eq_some hl
    rfl
  rw [lruSizeTotal_leave hl, hentry, toInt32_of_range (by omega) (by omega)] at htotal
  refine ⟨⟨(hcache.mono fun _ hq => Or.inl hq).congr hsame, ?_, by omega⟩, by omega⟩
  rw [htotal, hsame.listSize, hsize]
  omega

theorem WithinTotal.makeRoom (h : WithinTotal st own) (hr : fileLruMakeRoom io st p = some st') :
    WithinTotal st' own ∧ st'.lruSizeTotal ≤ st.lruSizeTotal ∧ st'.lruSizeMax = st.lruSizeMax ∧
      ∀ q, (st'.entry q).fileSize = (st.entry q).fileSize := by
  refine fileLruMakeRoom_rule (P := fun s => WithinTotal s own ∧
      s.lruSizeTotal ≤ st.lruSizeTotal ∧ s.lruSizeMax = st.lruSizeMax ∧
      ∀ q, (s.entry q).fileSize = (st.entry q).fileSize) ?_ ⟨h, le_rfl, rfl, fun _ => rfl⟩ h.nodup hr
  rintro s q s' ⟨hs, htotal, hmax, hsize⟩ hq hl
  obtain ⟨hevict, hle⟩ := hs.evict hq hl
  refine ⟨hevict, hle.trans htotal, ?_, fun x => ?_⟩
  · rw [lruSizeMax_evict, lruSizeMax_leave hl, hmax]
  · obtain ⟨rb, -, rfl⟩ := FileLru.leave_eq_some hl
    rw [(SameCache.evict _ q).size]
    exact hsize x

theorem fileLruBorrowJoin_sizes (hj : fileLruBorrowJoin io st p = some st') :
    st'.list = p :: st.list ∧ st'.lruSizeMax = st.lruSizeMax ∧
      st'.listSize = (st.entry p).fileSize + st.listSize ∧ st'.lruSizeTotal = st.newTotal p := by
  have hsame := SameCache.counted st p
  rw [fileLruBorrowJoin_eq] at hj
  obtain ⟨s, hs, rfl⟩ := Option.map_eq_some_iff.mp hj
  obtain ⟨rb, -, rfl⟩ := FileLru.rbInsert_eq_some hs
  refine ⟨rfl, rfl, ?_, ?_⟩
  · show ((p :: (st.counted p).list).map fun q => ((st.counted p).entry q).fileSize).sum = _
    have hlist : ((st.counted p).list.map fun q => ((st.counted p).entry q).fileSize).sum
        = st.listSize := hsame.listSize
    rw [List.map_cons, List.sum_cons, hlist, hsame.size]
  · show toInt32 (st.lruSizeTotal + ((st.borrowInc p).entry p).fileSize) = _
    rw [(SameCache.borrowInc st p).size]
    rfl

/-- **上限に収まる file を入れた後、和は上限を越えない。** -/
theorem WithinTotal.insert (h : WithinTotal st own) (hp : own p) {s : FileLru}
    (hmax : 0 < st.lruSizeMax) (hsize : (st.entry p).fileSize ≤ st.lruSizeMax)
    (hbound : st.lruSizeMax < 2 ^ 31)
    (hfit : ¬ (0 < st.lruSizeMax ∧ st.newTotal p < st.lruSizeTotal))
    (hroom : fileLruMakeRoom io st p = some s) (hj : fileLruBorrowJoin io s p = some st') :
    WithinTotal st' (fun q => own q ∧ q ≠ p) ∧ st'.listSize ≤ st'.lruSizeMax := by
  obtain ⟨hs, hstotal, hsmax, hssize⟩ := h.makeRoom hroom
  obtain ⟨-, hmax', hlist', htotal'⟩ := fileLruBorrowJoin_sizes hj
  have hpos := h.size p (h.own_lt p hp)
  have hnonneg := h.toCacheInv.listSize_nonneg
  have hsnonneg := hs.toCacheInv.listSize_nonneg
  have hle := h.le
  have hlt := h.lt
  have hsle := hs.le
  -- あふれていないので、和は `int` に収まる
  have hnew : st.newTotal p = st.lruSizeTotal + (st.entry p).fileSize ∧
      st.lruSizeTotal + (st.entry p).fileSize < 2 ^ 31 := by
    unfold FileLru.newTotal at hfit ⊢
    rw [toInt32_eq] at hfit ⊢
    omega
  have hsnew : s.newTotal p = s.lruSizeTotal + (st.entry p).fileSize := by
    unfold FileLru.newTotal
    rw [hssize, toInt32_of_range (by omega) (by omega)]
  rw [hsnew] at htotal'
  rw [hssize] at hlist'
  refine ⟨{ hs.toCacheInv.join hp hj with le := by omega, lt := by omega }, ?_⟩
  rw [hmax', hlist', hsmax]
  rcases (fileLruMakeRoom_list h.nodup hroom).2 with ⟨-, hno⟩ | hnil | hend
  · have hle : ¬ st.newTotal p > st.lruSizeMax := fun hgt => hno ⟨hmax, hgt⟩
    omega
  · have hzero : s.listSize = 0 := by
      unfold FileLru.listSize
      rw [hnil]
      rfl
    omega
  · rw [hsmax, toInt32_of_range (by omega) (by omega)] at hend
    omega

theorem WithinTotal.purgeAll (h : WithinTotal st own) {r : Option Nat}
    (hr : fileLruPurgeAll io st = some (r, st')) : WithinTotal st' own := by
  have hleave : ∀ {s p s'}, WithinTotal s own → p ∈ s.list → s.leave io p = some s' →
      WithinTotal s' own := fun {s p s'} hs hp hl => by
    have hpos := (hs.size p (hs.list_lt p hp)).1
    have hle := hs.le
    have hlt := hs.lt
    have hsize := FileLru.listSize_leave hp hl
    have htotal := lruSizeTotal_leave hl
    exact { (hs.toCacheInv.leave hp hl).mono fun _ hq => Or.inl hq with
      le := by omega
      lt := by omega }
  have hstep : ∀ s p s', WithinTotal s own → p ∈ s.list → s.leave io p = some s' →
      (s'.entry p).borrowCnt ≠ 0 → WithinTotal (s'.joinPurged p) own := fun s p s' hs hp hl _ =>
    (hleave hs hp hl).congr (.joinPurged s' p) rfl
  rcases fileLruPurgeAll_rule hstep h h.nodup hr with ⟨-, h'⟩ | ⟨p, s, -, hs, hp, hl, -⟩
  · exact h'
  · exact hleave hs hp hl

theorem WithinTotal.alloc (h : WithinTotal st own) {e : FileLruEntry}
    (he : 0 < e.fileSize ∧ e.fileSize < 2 ^ 31) :
    WithinTotal (st.alloc e) fun q => own q ∨ q = st.next where
  toCacheInv := h.toCacheInv.alloc he
  le := by
    rw [h.toCacheInv.listSize_alloc e]
    exact h.le
  lt := h.lt

theorem WithinTotal.toHead (h : WithinTotal st own) (hp : p ∈ st.list) :
    WithinTotal { st with list := p :: st.list.erase p } own where
  toCacheInv := h.toCacheInv.toHead hp
  le := by
    have herase := FileLru.listSize_erase hp
    show ((p :: st.list.erase p).map fun q => (st.entry q).fileSize).sum ≤ st.lruSizeTotal
    rw [List.map_cons, List.sum_cons, ← herase]
    exact h.le
  lt := h.lt

/-! ## 読む前の大きさの確かめ -/

theorem fileLruLoadFromDisk_fits {disk : DiskIo} {fileName : CStr}
    (hl : fileLruLoadFromDisk disk st fileName = (some p, st')) :
    st'.lruSizeMax = st.lruSizeMax ∧
      (0 < st.lruSizeMax → (st'.entry p).fileSize ≤ st.lruSizeMax) := by
  unfold fileLruLoadFromDisk at hl
  split at hl
  · cases hl
  split at hl
  · cases hl
  dsimp only at hl
  split at hl
  · cases hl
  split at hl
  · cases hl
  split at hl
  · cases hl
  next hno =>
  split at hl
  · cases hl
  split at hl
  · cases hl
  split at hl
  · cases hl
  obtain ⟨hp, rfl⟩ := Prod.mk.inj hl
  obtain rfl := Option.some.inj hp
  refine ⟨rfl, fun hmax => ?_⟩
  show ((Function.update st.entry st.next _) st.next).fileSize ≤ _
  rw [Function.update_self]
  exact Int.not_lt.mp fun hgt => hno ⟨hmax, hgt⟩

/-! ## 呼び手のいる所 -/

theorem lruRun_pc {c : Nat} {io : LruIo} (hs : lruRun w c io = some w') :
    ∃ k, w'.pc = Function.update w.pc c k ∧ w.pc c ≠ .idle ∧ ∀ p, k = .insert p →
      ∃ fileName, fileLruLoadFromDisk io.disk w.lru fileName = (some p, w'.lru) := by
  unfold lruRun at hs
  cases hpc : w.pc c with
  | idle =>
    simp only [hpc] at hs
    cases hs
  | borrow fileName =>
    simp only [hpc] at hs
    split at hs <;> cases hs <;> exact ⟨_, rfl, by simp, fun p hk => by cases hk⟩
  | load fileName =>
    simp only [hpc] at hs
    split at hs
    · cases hs
      exact ⟨_, rfl, by simp, fun p hk => by cases hk⟩
    · next q lru hl =>
      cases hs
      refine ⟨_, rfl, by simp, fun p hk => ?_⟩
      cases hk
      exact ⟨fileName, hl⟩
  | insert q =>
    simp only [hpc] at hs
    split at hs <;> cases hs <;> exact ⟨_, rfl, by simp, fun p hk => by cases hk⟩
  | free q again =>
    simp only [hpc] at hs
    cases hs
    refine ⟨_, rfl, by simp, fun p hk => ?_⟩
    cases again <;> cases hk
  | giveBack q =>
    simp only [hpc] at hs
    rcases hr : fileLruReturn w.lru q with ⟨last, lru⟩
    rw [hr] at hs
    cases hs
    refine ⟨_, rfl, by simp, fun p hk => ?_⟩
    cases last <;> cases hk
  | purgeAll =>
    simp only [hpc] at hs
    split at hs <;> cases hs <;> exact ⟨_, rfl, by simp, fun p hk => by cases hk⟩

theorem lruCall_pc {c : Nat} {f : LruCall} (hs : lruCall w c f = some w') :
    w'.pc = w.pc ∨ ∃ k, w'.pc = Function.update w.pc c k ∧ ∀ p, k ≠ .insert p := by
  unfold lruCall at hs
  cases f with
  | borrow fileName =>
    dsimp only at hs
    split at hs
    · cases hs
    · split at hs
      · cases hs
        exact .inl rfl
      · cases hs
        exact .inr ⟨_, rfl, fun p hk => by cases hk⟩
  | giveBack p =>
    dsimp only at hs
    split at hs
    · cases hs
    · split at hs
      · cases hs
        exact .inr ⟨_, rfl, fun p hk => by cases hk⟩
      · cases hs
        exact .inl rfl
  | purgeAll =>
    dsimp only at hs
    split at hs
    · cases hs
    · cases hs
      exact .inr ⟨_, rfl, fun p hk => by cases hk⟩

/-! ## `lru_size_max` を変えない一歩 -/

theorem lruSizeMax_fileLruBorrowFind (st : FileLru) (fileName : CStr) :
    (fileLruBorrowFind st fileName).2.lruSizeMax = st.lruSizeMax := by
  unfold fileLruBorrowFind
  split
  · rfl
  · split <;> rfl

theorem lruSizeMax_fileLruReturn (st : FileLru) (p : Nat) :
    (fileLruReturn st p).2.lruSizeMax = st.lruSizeMax := by
  unfold fileLruReturn
  dsimp only
  split
  · rfl
  · split
    · rfl
    · split <;> rfl

theorem lruSizeMax_fileLruLoadFromDisk (disk : DiskIo) (st : FileLru) (fileName : CStr) :
    (fileLruLoadFromDisk disk st fileName).2.lruSizeMax = st.lruSizeMax := by
  rcases fileLruLoadFromDisk_cases disk st fileName with hr | ⟨size, -, hr | hr⟩
  · rw [hr]
  · rw [hr]
    rfl
  · rw [hr]
    rfl

theorem lruSizeMax_fileLruBorrowInsert (h : WithinTotal st own) {r : LruInserted}
    (hr : fileLruBorrowInsert io st p = some (r, st')) : st'.lruSizeMax = st.lruSizeMax := by
  rcases fileLruBorrowInsert_cases hr with ⟨e, -, -, rfl⟩ | ⟨-, rfl⟩ | ⟨s, -, -, -, hroom, hjoin⟩
  · rfl
  · rfl
  · rw [(fileLruBorrowJoin_sizes hjoin).2.1]
    exact (h.makeRoom hroom).2.2.1

theorem lruSizeMax_fileLruPurgeAll (hnd : st.list.Nodup) {r : Option Nat}
    (hr : fileLruPurgeAll io st = some (r, st')) : st'.lruSizeMax = st.lruSizeMax := by
  rcases fileLruPurgeAll_rule (P := fun s => s.lruSizeMax = st.lruSizeMax)
    (fun s p s' hs _ hl _ => (lruSizeMax_leave hl).trans hs) rfl hnd hr with
    ⟨-, h'⟩ | ⟨p, s, -, hs, -, hl, -⟩
  · exact h'
  · exact (lruSizeMax_leave hl).trans hs

theorem lruSizeMax_run {c : Nat} {io : LruIo} (h : WithinTotal w.lru own)
    (hs : lruRun w c io = some w') : w'.lru.lruSizeMax = w.lru.lruSizeMax := by
  unfold lruRun at hs
  cases hpc : w.pc c with
  | idle =>
    simp only [hpc] at hs
    cases hs
  | borrow fileName =>
    simp only [hpc] at hs
    have hmax := lruSizeMax_fileLruBorrowFind w.lru fileName
    rcases hr : fileLruBorrowFind w.lru fileName with ⟨r, lru⟩
    rw [hr] at hs hmax
    cases r <;> cases hs <;> exact hmax
  | load fileName =>
    simp only [hpc] at hs
    have hmax := lruSizeMax_fileLruLoadFromDisk io.disk w.lru fileName
    rcases hr : fileLruLoadFromDisk io.disk w.lru fileName with ⟨r, lru⟩
    rw [hr] at hs hmax
    cases r <;> cases hs <;> exact hmax
  | insert p =>
    simp only [hpc] at hs
    cases hr : fileLruBorrowInsert io.rb w.lru p with
    | none =>
      rw [hr] at hs
      cases hs
    | some r =>
      obtain ⟨r, lru⟩ := r
      have hmax := lruSizeMax_fileLruBorrowInsert h hr
      rw [hr] at hs
      cases r <;> cases hs <;> exact hmax
  | free p again =>
    simp only [hpc] at hs
    cases hs
    rfl
  | giveBack p =>
    simp only [hpc] at hs
    have hmax := lruSizeMax_fileLruReturn w.lru p
    rcases hr : fileLruReturn w.lru p with ⟨last, lru⟩
    rw [hr] at hs hmax
    cases hs
    exact hmax
  | purgeAll =>
    simp only [hpc] at hs
    cases hr : fileLruPurgeAll io.rb w.lru with
    | none =>
      rw [hr] at hs
      cases hs
    | some r =>
      obtain ⟨r, lru⟩ := r
      have hmax := lruSizeMax_fileLruPurgeAll h.nodup hr
      rw [hr] at hs
      cases r <;> cases hs <;> exact hmax

theorem lruSizeMax_setup_lt (stat : List UInt8 → RootStat) (rootPath : List UInt8) (max : Int32)
    (h : st.lruSizeMax < 2 ^ 31) : (fileLruSetup stat st rootPath max).2.lruSizeMax < 2 ^ 31 := by
  unfold fileLruSetup
  split
  · exact h
  · split
    · exact h
    · exact h
    · exact max.toInt_lt

/-! ## 一歩 -/

/-- 和の不変量と、入れようとしている file の大きさ。 -/
structure CapacityWorld (w : LruWorld) : Prop where
  world : CacheWorld LruPc.inserting w
  within : WithinTotal w.lru (w.Owns LruPc.inserting)
  max_lt : w.lru.lruSizeMax < 2 ^ 31
  /-- 途中にいる呼び手は一人である -/
  alone : ∀ c c', w.pc c ≠ .idle → w.pc c' ≠ .idle → c = c'
  fits : ∀ c p, w.pc c = .insert p → (w.lru.entry p).fileSize ≤ w.lru.lruSizeMax

theorem withinTotal_step (h : CapacityWorld w) (op : LruOp) (hmax : 0 < w.lru.lruSizeMax)
    (hs : lruStep w op = some w') : (∃ own, WithinTotal w'.lru own) ∧
      (InsertsEntry w op w' → w'.lru.listSize ≤ w'.lru.lruSizeMax) := by
  have hw := h.within
  by_cases hins : InsertsEntry w op w'
  · obtain ⟨c, io, p, rfl, hpc, hr⟩ := hins
    rcases fileLruBorrowInsert_cases hr with ⟨e, he, -⟩ | ⟨he, -⟩ |
      ⟨s, -, -, hfit, hroom, hjoin⟩
    · cases he
    · cases he
    · obtain ⟨hin, hcap⟩ := hw.insert ⟨c, by rw [hpc]; rfl⟩ hmax (h.fits c p hpc) h.max_lt hfit
        hroom hjoin
      exact ⟨⟨_, hin⟩, fun _ => hcap⟩
  · refine ⟨?_, fun hi => absurd hi hins⟩
    cases lruStep_effect hs with
    | same hsame ht => exact ⟨_, hw.congr hsame ht⟩
    | alloc hpc hsize hsame ht => exact ⟨_, (hw.alloc hsize).congr hsame ht⟩
    | head hpc he hlru =>
      rw [hlru]
      exact ⟨_, (hw.congr (.borrowInc w.lru _) rfl).toHead (hw.toCacheInv.mem_of_rbFind he).1⟩
    | @join c io _ s p hpc hfind hfit hroom hjoin =>
      obtain ⟨hin, -⟩ := hw.insert ⟨c, by rw [hpc]; rfl⟩ hmax (h.fits c p hpc) h.max_lt hfit
        hroom hjoin
      exact ⟨_, hin⟩
    | purge hpc hr => exact ⟨_, hw.purgeAll hr⟩

/-- **一人ずつ進む間、和の不変量は保たれ、入れた直後の和は上限を越えない。** -/
theorem capacityWorld_step (h : CapacityWorld w) (op : LruOp) (hseq : lruSequential w op)
    (hmax : 0 < w.lru.lruSizeMax) (hs : lruStep w op = some w') :
    CapacityWorld w' ∧ (InsertsEntry w op w' → w'.lru.listSize ≤ w'.lru.lruSizeMax) := by
  have hworld := cacheWorld_step h.world op hs
  obtain ⟨⟨own, hin⟩, hcap⟩ := withinTotal_step h op hmax hs
  suffices hpc : w'.lru.lruSizeMax < 2 ^ 31 ∧
      (∀ c c', w'.pc c ≠ .idle → w'.pc c' ≠ .idle → c = c') ∧
      ∀ c p, w'.pc c = .insert p → (w'.lru.entry p).fileSize ≤ w'.lru.lruSizeMax from
    ⟨⟨hworld, hin.mono hworld.cache, hpc.1, hpc.2.1, hpc.2.2⟩, hcap⟩
  -- 誰も途中にいない所から、一人だけが動く
  have hone : ∀ {c k}, (∀ c', c' ≠ c → w.pc c' = .idle) → w'.pc = Function.update w.pc c k →
      ∀ c', w'.pc c' ≠ .idle → c' = c := by
    intro c k hidle hpc c' hc'
    by_contra hne
    rw [hpc, Function.update_of_ne hne] at hc'
    exact hc' (hidle c' hne)
  cases op with
  | run c io =>
    have hs : lruRun w c io = some w' := hs
    obtain ⟨k, hpc, hbusy, hload⟩ := lruRun_pc hs
    have hidle : ∀ c', c' ≠ c → w.pc c' = .idle := fun c' hne => by
      by_contra hc'
      exact hne (h.alone c' c hc' hbusy)
    have honly := hone hidle hpc
    refine ⟨(lruSizeMax_run h.within hs).trans_lt h.max_lt,
      fun c1 c2 h1 h2 => (honly c1 h1).trans (honly c2 h2).symm, fun c' p hp => ?_⟩
    obtain rfl := honly c' (by rw [hp]; simp)
    rw [hpc, Function.update_self] at hp
    obtain ⟨fileName, hl⟩ := hload p hp
    obtain ⟨hsame, hfits⟩ := fileLruLoadFromDisk_fits hl
    rw [hsame]
    exact hfits hmax
  | call c f =>
    have hs : lruCall w c f = some w' := hs
    have hidle : ∀ c, w.pc c = .idle := hseq
    rw [lruCall_lru hs]
    refine ⟨h.max_lt, ?_⟩
    rcases lruCall_pc hs with hpc | ⟨k, hpc, hk⟩
    · rw [hpc]
      exact ⟨h.alone, h.fits⟩
    · have honly := hone (fun c' _ => hidle c') hpc
      refine ⟨fun c1 c2 h1 h2 => (honly c1 h1).trans (honly c2 h2).symm, fun c' p hp => ?_⟩
      obtain rfl := honly c' (by rw [hp]; simp)
      rw [hpc, Function.update_self] at hp
      exact absurd hp (hk p)
  | setup stat rootPath max =>
    have hidle : ∀ c, w.pc c = .idle := hseq
    cases hs
    refine ⟨lruSizeMax_setup_lt stat rootPath max h.max_lt, h.alone, fun c p hp => ?_⟩
    have hp : w.pc c = .insert p := hp
    rw [hidle c] at hp
    cases hp
  | setBloom bf =>
    cases hs
    exact ⟨h.max_lt, h.alone, h.fits⟩

theorem capacityWorld_init : CapacityWorld .init where
  world := cacheWorld_init _ rfl
  within :=
    { (cacheWorld_init LruPc.inserting rfl).cache with
      le := le_refl (0 : Int)
      lt := by
        show (0 : Int) < 2 ^ 31
        decide }
  max_lt := by
    show (4096 : Int) < 2 ^ 31
    decide
  alone _ _ h := absurd rfl h
  fits _ _ h := by cases h

end

/--
**上限が正である間、`file_lru_borrow` が新しい entry を入れた直後の、列にある entry の大きさの和は、
`lru_size_max` を越えない。**

`file_lru_setup` は、呼び手が途中にいないときに、いつ何度行ってもよい。
-/
theorem file_lru_capacity (ops : List LruOp)
    (h : Along lruStep (fun w op => lruSequential w op ∧ 0 < w.lru.lruSizeMax) .init ops) :
    Along lruStep CapacityKept .init ops := by
  suffices hrun : ∀ (ops : List LruOp) (w : LruWorld), CapacityWorld w →
      Along lruStep (fun w op => lruSequential w op ∧ 0 < w.lru.lruSizeMax) w ops →
      Along lruStep CapacityKept w ops from hrun ops .init capacityWorld_init h
  intro ops
  induction ops with
  | nil => exact fun _ _ _ => trivial
  | cons op ops ih =>
    rintro w hw ⟨⟨hseq, hmax⟩, hrest⟩
    refine ⟨fun w' hs => (capacityWorld_step hw op hseq hmax hs).2, fun w' hs => ?_⟩
    exact ih w' (capacityWorld_step hw op hseq hmax hs).1 (hrest w' hs)

/-! ## 例 -/

def lruSingle (w : LruWorld) : LruOp → Prop
  | .run c _ => c = 0
  | .call c _ => c = 0 ∧ w.pc 0 = .idle
  | _ => w.pc 0 = .idle

instance (w : LruWorld) : DecidablePred (lruSingle w) := fun op => by
  cases op <;> unfold lruSingle <;> infer_instance

theorem along_sequential_of_single : ∀ {ops : List LruOp} {w : LruWorld},
    (∀ c, c ≠ 0 → w.pc c = .idle) → Along lruStep lruSingle w ops → Along lruStep lruSequential w ops
  | [], _, _, _ => trivial
  | op :: ops, w, hidle, h => by
    have hall : w.pc 0 = .idle → ∀ c, w.pc c = .idle := fun hzero c => by
      by_cases hc : c = 0
      · rw [hc]
        exact hzero
      · exact hidle c hc
    have hother : ∀ {k : LruPc}, ∀ c, c ≠ 0 → Function.update w.pc 0 k c = .idle := fun c hc => by
      rw [Function.update_of_ne hc]
      exact hidle c hc
    cases op with
    | run c io =>
      obtain rfl : c = 0 := h.1
      refine ⟨trivial, fun w' hs => along_sequential_of_single ?_ (h.2 w' hs)⟩
      obtain ⟨k, hpc, -⟩ := lruRun_pc (c := 0) hs
      rw [hpc]
      exact hother
    | call c f =>
      obtain ⟨rfl, hzero⟩ := h.1
      refine ⟨hall hzero, fun w' hs => along_sequential_of_single ?_ (h.2 w' hs)⟩
      rcases lruCall_pc (c := 0) hs with hpc | ⟨k, hpc, -⟩
      · rw [hpc]
        exact hidle
      · rw [hpc]
        exact hother
    | setup stat rootPath max =>
      refine ⟨hall h.1, fun w' hs => along_sequential_of_single ?_ (h.2 w' hs)⟩
      cases hs
      exact hidle
    | setBloom bf =>
      refine ⟨hall h.1, fun w' hs => along_sequential_of_single ?_ (h.2 w' hs)⟩
      cases hs
      exact hidle

/-- `name` を借りる。見つからなければ、読んで入れる。 -/
def borrowOps (name : List UInt8) : List LruOp :=
  [.call 0 (.borrow (.ofBytes name)), .run 0 .sample, .run 0 .sample, .run 0 .sample]

/-- 上限を 12 byte にし、`a`・`b`・`c` のどれかであれば filter を通す。 -/
def smallCacheOps : List LruOp :=
  [.setup (fun _ => .folder) [46] 12,
    .setBloom (some (((pathBloomFilterNew.addPath [97]).addPath [98]).addPath [99]))]

/-- 5 byte の file を三つ借りると、二つだけが残る。 -/
theorem file_lru_capacity_sample : Along lruStep CapacityKept .init
    (smallCacheOps ++ borrowOps [97] ++ borrowOps [98] ++ borrowOps [99]) :=
  file_lru_capacity _
    ((along_sequential_of_single (fun _ _ => rfl) (by decide +kernel)).and (by decide +kernel))

end Esq
