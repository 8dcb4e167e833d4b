import Esq.FileLru.Invariant

/-!
# entry の寿命

列にも purged の列にも無い entry を持つのは、それを入れる前か `free` する前の呼び手一人だけである。
借りられている entry は二つの列のどちらかにあるから、`free` されない。purged の列にある entry は
必ず借りられていて、最後の借り手が返すときに列を離れる（`LifeInv`）。

`borrow_cnt` は `int` なので、同じ entry の借りが 2 ^ 32 に達すると 0 に戻り、借りられたまま
`free` される（`borrow_count_wraps`）。それより少なければ、どの並びでもこのとおりである
（`file_lru_lifetime`）。
-/

namespace Esq

open Infra

/-! ## 借りの数 -/

theorem toInt32_eq_zero {n : Nat} (hn : n < 2 ^ 32) : toInt32 n = 0 ↔ n = 0 := by
  rw [toInt32_eq]
  omega

theorem toInt32_succ (n : Nat) : toInt32 (toInt32 n + 1) = toInt32 ((n + 1 : Nat) : Int) := by
  simp only [toInt32_eq]
  omega

theorem toInt32_pred (n : Nat) : toInt32 (toInt32 ((n + 1 : Nat) : Int) - 1) = toInt32 n := by
  simp only [toInt32_eq]
  omega

def lendCount (out : Nat → Nat) (p : Nat) : Nat → Nat := fun q => out q + if q = p then 1 else 0

/-! ## 不変量 -/

/-- `out p` は `p` の、まだ返されていない数である。 -/
structure LifeInv (st : FileLru) (own : Nat → Prop) (out : Nat → Nat) : Prop
    extends CacheInv st own where
  purged_nodup : st.purgedList.Nodup
  purged_lt : ∀ p ∈ st.purgedList, p < st.next
  purged_not : ∀ p ∈ st.purgedList, p ∉ st.list
  purged_own : ∀ p ∈ st.purgedList, ¬ own p
  list_flag : ∀ p ∈ st.list, (st.entry p).purged = false
  purged_flag : ∀ p ∈ st.purgedList, (st.entry p).purged = true ∧ 0 < out p
  cnt : ∀ p < st.next, (st.entry p).borrowCnt = toInt32 (out p)
  out_pos : ∀ p, 0 < out p → p ∈ st.list ∨ p ∈ st.purgedList
  freed_nodup : st.freed.Nodup
  freed_lt : ∀ p ∈ st.freed, p < st.next
  freed_not : ∀ p ∈ st.freed, p ∉ st.list ∧ p ∉ st.purgedList ∧ ¬ own p
  magic : ∀ p < st.next, (st.entry p).magic0 = fileLruMgc0 ∧ (st.entry p).magic1 = fileLruMgc1

section

variable {st st' : FileLru} {own own' : Nat → Prop} {out : Nat → Nat} {p : Nat} {io : ForestIo Nat}

theorem LifeInv.congr_own {o : Nat → Prop} (h : LifeInv st own out) (hown : ∀ q, o q → own q) :
    LifeInv st o out :=
  { h with
    toCacheInv := h.toCacheInv.mono hown
    purged_own := fun q hq hq' => h.purged_own q hq (hown q hq')
    freed_not := fun q hq =>
      ⟨(h.freed_not q hq).1, (h.freed_not q hq).2.1, fun hq' => (h.freed_not q hq).2.2 (hown q hq')⟩ }

theorem LifeInv.out_eq_zero (h : LifeInv st own out) (hl : p ∉ st.list) (hp : p ∉ st.purgedList) :
    out p = 0 := by
  by_contra hne
  rcases h.out_pos p (Nat.pos_of_ne_zero hne) with hm | hm
  · exact hl hm
  · exact hp hm

theorem LifeInv.own_out (h : LifeInv st own out) (hp : own p) : out p = 0 :=
  h.out_eq_zero (h.own_not p hp) fun hm => h.purged_own p hm hp

theorem LifeInv.not_freed (h : LifeInv st own out) (hp : 0 < out p) : p ∉ st.freed := by
  intro hf
  obtain ⟨hl, hpl, -⟩ := h.freed_not p hf
  exact absurd (h.out_eq_zero hl hpl) hp.ne'

/-- 列と木、`purged_list` と `freed`、entry が変わらない。 -/
structure SameLife (st st' : FileLru) : Prop extends SameCache st st' where
  entry : st'.entry = st.entry
  purgedList : st'.purgedList = st.purgedList
  freed : st'.freed = st.freed

theorem LifeInv.congr (h : LifeInv st own out) (hs : SameLife st st') : LifeInv st' own out := by
  have hcache := h.toCacheInv.congr hs.toSameCache
  obtain ⟨⟨hlist, -, hnext, -, -⟩, hentry, hpurged, hfreed⟩ := hs
  refine ⟨hcache, ?_, ?_, ?_, ?_, ?_, ?_, ?_, ?_, ?_, ?_, ?_, ?_⟩
  all_goals simp only [hentry, hpurged, hfreed, hlist, hnext]
  · exact h.purged_nodup
  · exact h.purged_lt
  · exact h.purged_not
  · exact h.purged_own
  · exact h.list_flag
  · exact h.purged_flag
  · exact h.cnt
  · exact h.out_pos
  · exact h.freed_nodup
  · exact h.freed_lt
  · exact h.freed_not
  · exact h.magic

/-- **借りられていない entry を列から外すと、外した者だけが持つ。** -/
theorem LifeInv.leave (h : LifeInv st own out) (hp : p ∈ st.list) (hl : st.leave io p = some st')
    (hout : out p = 0) : LifeInv st' (fun q => own q ∨ q = p) out := by
  have hcache := h.toCacheInv.leave hp hl
  have hnot : p ∉ st.purgedList := fun hm => h.purged_not p hm hp
  obtain ⟨rb, -, rfl⟩ := FileLru.leave_eq_some hl
  refine ⟨hcache, h.purged_nodup, h.purged_lt, ?_, ?_, ?_, h.purged_flag, h.cnt, ?_, h.freed_nodup,
    h.freed_lt, ?_, h.magic⟩
  · intro q hq hm
    exact h.purged_not q hq (List.mem_of_mem_erase hm)
  · rintro q hq (ho | rfl)
    · exact h.purged_own q hq ho
    · exact hnot hq
  · intro q hq
    exact h.list_flag q (List.mem_of_mem_erase hq)
  · intro q hq
    have hqp : q ≠ p := fun he => by
      rw [he, hout] at hq
      exact lt_irrefl 0 hq
    exact (h.out_pos q hq).imp_left fun hm => (List.mem_erase_of_ne hqp).mpr hm
  · intro q hq
    obtain ⟨h1, h2, h3⟩ := h.freed_not q hq
    refine ⟨fun hm => h1 (List.mem_of_mem_erase hm), h2, ?_⟩
    rintro (ho | rfl)
    · exact h3 ho
    · exact h1 hp

theorem LifeInv.free (h : LifeInv st own out) (hp : own p) :
    LifeInv (st.free p) (fun q => own q ∧ q ≠ p) out := by
  have h' := h.congr_own (o := fun q => own q ∧ q ≠ p) fun _ hq => hq.1
  refine ⟨h'.toCacheInv.congr (.free st p), h.purged_nodup, h.purged_lt, h.purged_not, h'.purged_own,
    h.list_flag, h.purged_flag, h.cnt, h.out_pos, ?_, ?_, ?_, h.magic⟩
  · refine List.nodup_cons.mpr ⟨fun hm => ?_, h.freed_nodup⟩
    exact (h.freed_not p hm).2.2 hp
  · intro q hq
    rcases List.mem_cons.mp hq with rfl | hq
    · exact h.own_lt q hp
    · exact h.freed_lt q hq
  · intro q hq
    rcases List.mem_cons.mp hq with rfl | hq
    · exact ⟨h.own_not q hp, fun hm => h.purged_own q hm hp, fun ho => ho.2 rfl⟩
    · exact h'.freed_not q hq

/-- **借りられている entry は、purged の列に移る。** -/
theorem LifeInv.leavePurged (h : LifeInv st own out) (hp : p ∈ st.list)
    (hl : st.leave io p = some st') (hout : 0 < out p) : LifeInv (st'.joinPurged p) own out := by
  have hleft : CacheInv st' own := (h.toCacheInv.leave hp hl).mono fun _ hq => Or.inl hq
  have hcache := hleft.congr (.joinPurged st' p)
  have hnot : p ∉ st.purgedList := fun hm => h.purged_not p hm hp
  obtain ⟨rb, -, rfl⟩ := FileLru.leave_eq_some hl
  -- flag のほかは、どの entry も変わらない
  have hentry : ∀ q, (({ st with list := st.list.erase p, rb } : FileLru).joinPurged p).entry q
      = if q = p then { st.entry p with purged := true } else st.entry q := by
    intro q
    by_cases hq : q = p
    · subst hq
      rw [if_pos rfl]
      exact Function.update_self ..
    · rw [if_neg hq]
      exact Function.update_of_ne hq _ _
  refine ⟨hcache, ?_, ?_, ?_, ?_, ?_, ?_, ?_, ?_, h.freed_nodup, h.freed_lt, ?_, ?_⟩
  · exact List.nodup_cons.mpr ⟨hnot, h.purged_nodup⟩
  · intro q hq
    rcases List.mem_cons.mp hq with rfl | hq
    · exact h.list_lt q hp
    · exact h.purged_lt q hq
  · intro q hq hm
    rcases List.mem_cons.mp hq with rfl | hq
    · exact (List.Nodup.mem_erase_iff h.nodup).mp hm |>.1 rfl
    · exact h.purged_not q hq (List.mem_of_mem_erase hm)
  · intro q hq ho
    rcases List.mem_cons.mp hq with rfl | hq
    · exact h.own_not q ho hp
    · exact h.purged_own q hq ho
  · intro q hq
    have hqp : q ≠ p := fun he => (List.Nodup.mem_erase_iff h.nodup).mp hq |>.1 he
    rw [hentry, if_neg hqp]
    exact h.list_flag q (List.mem_of_mem_erase hq)
  · intro q hq
    rw [hentry]
    rcases List.mem_cons.mp hq with rfl | hq
    · rw [if_pos rfl]
      exact ⟨rfl, hout⟩
    · have hqp : q ≠ p := fun he => hnot (he ▸ hq)
      rw [if_neg hqp]
      exact h.purged_flag q hq
  · intro q hq
    rw [hentry]
    split
    · next he =>
      subst he
      exact h.cnt q hq
    · exact h.cnt q hq
  · intro q hq
    by_cases hqp : q = p
    · exact Or.inr (hqp ▸ List.mem_cons_self)
    · rcases h.out_pos q hq with hm | hm
      · exact Or.inl ((List.mem_erase_of_ne hqp).mpr hm)
      · exact Or.inr (List.mem_cons_of_mem p hm)
  · intro q hq
    obtain ⟨h1, h2, h3⟩ := h.freed_not q hq
    refine ⟨fun hm => h1 (List.mem_of_mem_erase hm), fun hm => ?_, h3⟩
    rcases List.mem_cons.mp hm with rfl | hm
    · exact h1 hp
    · exact h2 hm
  · intro q hq
    rw [hentry]
    split
    · next he =>
      subst he
      exact h.magic q hq
    · exact h.magic q hq

theorem LifeInv.alloc (h : LifeInv st own out) {fileName : CStr} {size : Int}
    (hsize : 0 < size ∧ size < 2 ^ 31) (data : List UInt8) :
    LifeInv (st.alloc (.ofFile fileName size data)) (fun q => own q ∨ q = st.next) out := by
  have hcache := h.toCacheInv.alloc (e := .ofFile fileName size data) hsize
  have hold : ∀ p < st.next, (st.alloc (.ofFile fileName size data)).entry p = st.entry p :=
    fun p hp => Function.update_of_ne hp.ne _ _
  have hnew : (st.alloc (.ofFile fileName size data)).entry st.next = .ofFile fileName size data :=
    Function.update_self ..
  have hcases : ∀ p < st.next + 1, p < st.next ∨ p = st.next := fun p hp => by omega
  have hout : out st.next = 0 := h.out_eq_zero (fun hm => lt_irrefl _ (h.list_lt _ hm)) fun hm =>
    lt_irrefl _ (h.purged_lt _ hm)
  refine ⟨hcache, h.purged_nodup, fun q hq => Nat.lt_succ_of_lt (h.purged_lt q hq), h.purged_not, ?_, ?_,
    ?_, ?_, h.out_pos, h.freed_nodup, fun q hq => Nat.lt_succ_of_lt (h.freed_lt q hq), ?_, ?_⟩
  · rintro q hq (ho | rfl)
    · exact h.purged_own q hq ho
    · exact lt_irrefl _ (h.purged_lt _ hq)
  · intro q hq
    rw [hold q (h.list_lt q hq)]
    exact h.list_flag q hq
  · intro q hq
    rw [hold q (h.purged_lt q hq)]
    exact h.purged_flag q hq
  · intro q hq
    rcases hcases q hq with hlt | rfl
    · rw [hold q hlt]
      exact h.cnt q hlt
    · rw [hnew, hout]
      rfl
  · intro q hq
    obtain ⟨h1, h2, h3⟩ := h.freed_not q hq
    refine ⟨h1, h2, ?_⟩
    rintro (ho | rfl)
    · exact h3 ho
    · exact lt_irrefl _ (h.freed_lt _ hq)
  · intro q hq
    rcases hcases q hq with hlt | rfl
    · rw [hold q hlt]
      exact h.magic q hlt
    · rw [hnew]
      exact ⟨rfl, rfl⟩

theorem FileLru.entry_borrowInc (st : FileLru) (p q : Nat) : (st.borrowInc p).entry q
    = if q = p then { st.entry p with borrowCnt := toInt32 ((st.entry p).borrowCnt + 1) }
      else st.entry q := by
  by_cases hq : q = p
  · subst hq
    rw [if_pos rfl]
    exact Function.update_self ..
  · rw [if_neg hq]
    exact Function.update_of_ne hq _ _

theorem lendCount_self (out : Nat → Nat) (p : Nat) : lendCount out p p = out p + 1 := by
  simp [lendCount]

theorem lendCount_of_ne (out : Nat → Nat) {q : Nat} (hq : q ≠ p) : lendCount out p q = out q := by
  simp [lendCount, hq]

theorem LifeInv.lend (h : LifeInv st own out) (hp : p ∈ st.list) :
    LifeInv (st.borrowInc p) own (lendCount out p) := by
  have hcache := h.toCacheInv.congr (.borrowInc st p)
  have hnot : p ∉ st.purgedList := fun hm => h.purged_not p hm hp
  have hentry := st.entry_borrowInc p
  refine ⟨hcache, h.purged_nodup, h.purged_lt, h.purged_not, h.purged_own, ?_, ?_, ?_, ?_,
    h.freed_nodup, h.freed_lt, h.freed_not, ?_⟩
  · intro q hq
    rw [hentry]
    split
    · exact h.list_flag p hp
    · exact h.list_flag q hq
  · intro q hq
    have hqp : q ≠ p := fun he => hnot (he ▸ hq)
    rw [hentry, if_neg hqp, lendCount_of_ne out hqp]
    exact h.purged_flag q hq
  · intro q hq
    rw [hentry]
    split
    · next he =>
      subst he
      show toInt32 ((st.entry q).borrowCnt + 1) = _
      rw [lendCount_self, h.cnt q hq, toInt32_succ]
    · next hqp =>
      rw [lendCount_of_ne out hqp]
      exact h.cnt q hq
  · intro q hq
    by_cases hqp : q = p
    · exact Or.inl (hqp ▸ hp)
    · rw [lendCount_of_ne out hqp] at hq
      exact h.out_pos q hq
  · intro q hq
    rw [hentry]
    split
    · next he =>
      subst he
      exact h.magic q hq
    · exact h.magic q hq

theorem LifeInv.toHead (h : LifeInv st own out) (hp : p ∈ st.list) :
    LifeInv { st with list := p :: st.list.erase p } own out := by
  have hcache := h.toCacheInv.toHead hp
  have hmem : ∀ q, q ∈ p :: st.list.erase p ↔ q ∈ st.list := fun q =>
    (List.perm_cons_erase hp).symm.mem_iff
  refine ⟨hcache, h.purged_nodup, h.purged_lt, ?_, h.purged_own, ?_, h.purged_flag, h.cnt, ?_,
    h.freed_nodup, h.freed_lt, ?_, h.magic⟩
  · intro q hq hm
    exact h.purged_not q hq ((hmem q).mp hm)
  · intro q hq
    exact h.list_flag q ((hmem q).mp hq)
  · intro q hq
    exact (h.out_pos q hq).imp_left (hmem q).mpr
  · intro q hq
    obtain ⟨h1, h2, h3⟩ := h.freed_not q hq
    exact ⟨fun hm => h1 ((hmem q).mp hm), h2, h3⟩

theorem LifeInv.join (h : LifeInv st own out) (hp : own p) (hflag : (st.entry p).purged = false)
    (hj : fileLruBorrowJoin io st p = some st') :
    LifeInv st' (fun q => own q ∧ q ≠ p) (lendCount out p) := by
  have hcache := h.toCacheInv.join hp hj
  have hout := h.own_out hp
  have hentry := st.entry_borrowInc p
  unfold fileLruBorrowJoin at hj
  obtain ⟨s, hs, rfl⟩ := Option.map_eq_some_iff.mp hj
  obtain ⟨rb, -, rfl⟩ := FileLru.rbInsert_eq_some hs
  refine ⟨hcache, h.purged_nodup, h.purged_lt, ?_, ?_, ?_, ?_, ?_, ?_, h.freed_nodup, h.freed_lt, ?_,
    ?_⟩
  · intro q hq hm
    rcases List.mem_cons.mp hm with rfl | hm
    · exact h.purged_own q hq hp
    · exact h.purged_not q hq hm
  · intro q hq ho
    exact h.purged_own q hq ho.1
  · intro q hq
    show ((st.borrowInc p).entry q).purged = false
    rw [hentry]
    split
    · exact hflag
    · next hqp => exact h.list_flag q ((List.mem_cons.mp hq).resolve_left hqp)
  · intro q hq
    have hqp : q ≠ p := fun he => h.purged_own q hq (he ▸ hp)
    show ((st.borrowInc p).entry q).purged = true ∧ _
    rw [hentry, if_neg hqp, lendCount_of_ne out hqp]
    exact h.purged_flag q hq
  · intro q hq
    show ((st.borrowInc p).entry q).borrowCnt = _
    rw [hentry]
    split
    · next he =>
      subst he
      show toInt32 ((st.entry q).borrowCnt + 1) = _
      rw [lendCount_self, h.cnt q hq, toInt32_succ]
    · next hqp =>
      rw [lendCount_of_ne out hqp]
      exact h.cnt q hq
  · intro q hq
    by_cases hqp : q = p
    · exact Or.inl (hqp ▸ List.mem_cons_self)
    · rw [lendCount_of_ne out hqp] at hq
      exact (h.out_pos q hq).imp_left fun hm => List.mem_cons_of_mem p hm
  · intro q hq
    obtain ⟨h1, h2, h3⟩ := h.freed_not q hq
    refine ⟨fun hm => ?_, h2, fun ho => h3 ho.1⟩
    rcases List.mem_cons.mp hm with rfl | hm
    · exact h3 hp
    · exact h1 hm
  · intro q hq
    show ((st.borrowInc p).entry q).magic0 = _ ∧ ((st.borrowInc p).entry q).magic1 = _
    rw [hentry]
    split
    · next he =>
      subst he
      exact h.magic q hq
    · exact h.magic q hq

/-! ## 返す -/

def FileLru.borrowDec (st : FileLru) (p : Nat) : FileLru :=
  st.setEntry p { st.entry p with borrowCnt := toInt32 ((st.entry p).borrowCnt - 1) }

theorem FileLru.entry_borrowDec (st : FileLru) (p q : Nat) : (st.borrowDec p).entry q
    = if q = p then { st.entry p with borrowCnt := toInt32 ((st.entry p).borrowCnt - 1) }
      else st.entry q := by
  by_cases hq : q = p
  · subst hq
    rw [if_pos rfl]
    exact Function.update_self ..
  · rw [if_neg hq]
    exact Function.update_of_ne hq _ _

theorem LifeInv.cnt_borrowDec (h : LifeInv st own (lendCount out p)) :
    ∀ q < st.next, ((st.borrowDec p).entry q).borrowCnt = toInt32 (out q) := by
  intro q hq
  rw [st.entry_borrowDec]
  split
  · next he =>
    subst he
    show toInt32 ((st.entry q).borrowCnt - 1) = _
    rw [h.cnt q hq, lendCount_self, toInt32_pred]
  · next hqp =>
    rw [h.cnt q hq, lendCount_of_ne out hqp]

theorem LifeInv.borrowDec (h : LifeInv st own (lendCount out p))
    (hkeep : p ∈ st.purgedList → 0 < out p) : LifeInv (st.borrowDec p) own out := by
  have hentry := st.entry_borrowDec p
  have hsame : SameCache st (st.borrowDec p) := .setEntry rfl rfl
  refine ⟨h.toCacheInv.congr hsame, h.purged_nodup, h.purged_lt, h.purged_not, h.purged_own, ?_, ?_,
    h.cnt_borrowDec, ?_, h.freed_nodup, h.freed_lt, h.freed_not, ?_⟩
  · intro q hq
    rw [hentry]
    split
    · next he =>
      subst he
      exact h.list_flag q hq
    · exact h.list_flag q hq
  · intro q hq
    obtain ⟨hflag, hpos⟩ := h.purged_flag q hq
    rw [hentry]
    split
    · next he =>
      subst he
      exact ⟨hflag, hkeep hq⟩
    · next hqp =>
      rw [lendCount_of_ne out hqp] at hpos
      exact ⟨hflag, hpos⟩
  · intro q hq
    refine h.out_pos q ?_
    unfold lendCount
    omega
  · intro q hq
    rw [hentry]
    split
    · next he =>
      subst he
      exact h.magic q hq
    · exact h.magic q hq

/-- **最後の借りを返すと、purged の列を離れ、返した者だけが持つ。** -/
theorem LifeInv.leavePurgedList (h : LifeInv st own (lendCount out p)) (hp : p ∈ st.purgedList)
    (hout : out p = 0) :
    LifeInv { st.borrowDec p with purgedList := st.purgedList.erase p } (fun q => own q ∨ q = p)
      out := by
  have hentry := st.entry_borrowDec p
  have hdec : SameCache st (st.borrowDec p) := .setEntry rfl rfl
  have hsame : SameCache st { st.borrowDec p with purgedList := st.purgedList.erase p } :=
    hdec.trans ⟨rfl, rfl, rfl, fun _ => rfl, fun _ => rfl⟩
  have hnot := h.purged_not p hp
  have hcache : CacheInv { st.borrowDec p with purgedList := st.purgedList.erase p }
      (fun q => own q ∨ q = p) := by
    have hc := h.toCacheInv.congr hsame
    refine { hc with own_lt := ?_, own_not := ?_ }
    · rintro q (ho | rfl)
      · exact hc.own_lt q ho
      · exact h.purged_lt q hp
    · rintro q (ho | rfl)
      · exact hc.own_not q ho
      · exact hnot
  have hmem : ∀ q, q ∈ st.purgedList.erase p ↔ q ≠ p ∧ q ∈ st.purgedList := fun q =>
    List.Nodup.mem_erase_iff h.purged_nodup
  refine ⟨hcache, h.purged_nodup.erase p, ?_, ?_, ?_, ?_, ?_, h.cnt_borrowDec, ?_, h.freed_nodup,
    h.freed_lt, ?_, ?_⟩
  · intro q hq
    exact h.purged_lt q ((hmem q).mp hq).2
  · intro q hq
    exact h.purged_not q ((hmem q).mp hq).2
  · rintro q hq (ho | rfl)
    · exact h.purged_own q ((hmem q).mp hq).2 ho
    · exact ((hmem q).mp hq).1 rfl
  · intro q hq
    show ((st.borrowDec p).entry q).purged = false
    have hqp : q ≠ p := fun he => hnot (he ▸ hq)
    rw [hentry, if_neg hqp]
    exact h.list_flag q hq
  · intro q hq
    obtain ⟨hqp, hq⟩ := (hmem q).mp hq
    obtain ⟨hflag, hpos⟩ := h.purged_flag q hq
    show ((st.borrowDec p).entry q).purged = true ∧ _
    rw [hentry, if_neg hqp]
    rw [lendCount_of_ne out hqp] at hpos
    exact ⟨hflag, hpos⟩
  · intro q hq
    have hqp : q ≠ p := fun he => by
      rw [he, hout] at hq
      exact lt_irrefl 0 hq
    have hold : 0 < lendCount out p q := by
      rw [lendCount_of_ne out hqp]
      exact hq
    exact (h.out_pos q hold).imp_right fun hm => (hmem q).mpr ⟨hqp, hm⟩
  · intro q hq
    obtain ⟨h1, h2, h3⟩ := h.freed_not q hq
    refine ⟨h1, fun hm => h2 ((hmem q).mp hm).2, ?_⟩
    rintro (ho | rfl)
    · exact h3 ho
    · exact h2 hp
  · intro q hq
    show ((st.borrowDec p).entry q).magic0 = _ ∧ ((st.borrowDec p).entry q).magic1 = _
    rw [hentry]
    split
    · next he =>
      subst he
      exact h.magic q hq
    · exact h.magic q hq

/--
**返した後。** `free` するのは、purged の列にあって、これが最後の借りであるときに限る。
-/
theorem LifeInv.giveBack (h : LifeInv st own (lendCount out p)) (hout : out p < 2 ^ 32) :
    (fileLruReturn st p = (false, st.borrowDec p) ∧ LifeInv (st.borrowDec p) own out ∧
        (p ∈ st.purgedList → 0 < out p)) ∨
      (fileLruReturn st p = (true, { st.borrowDec p with purgedList := st.purgedList.erase p }) ∧
        LifeInv { st.borrowDec p with purgedList := st.purgedList.erase p }
          (fun q => own q ∨ q = p) out ∧
        p ∈ st.purgedList ∧ out p = 0) := by
  have hpos : 0 < lendCount out p p := by
    rw [lendCount_self]
    exact Nat.succ_pos _
  have hmem := h.out_pos p hpos
  have hlt : p < st.next := hmem.elim (h.list_lt p) (h.purged_lt p)
  have hcnt := h.cnt_borrowDec p hlt
  have hflag : ((st.borrowDec p).entry p).purged = (st.entry p).purged := by
    rw [st.entry_borrowDec, if_pos rfl]
  have hret : fileLruReturn st p =
      if ((st.borrowDec p).entry p).borrowCnt < 0 then (false, st.borrowDec p)
      else if !((st.borrowDec p).entry p).purged then (false, st.borrowDec p)
      else if ((st.borrowDec p).entry p).borrowCnt > 0 then (false, st.borrowDec p)
      else (true, { st.borrowDec p with purgedList := st.purgedList.erase p }) := rfl
  rw [hret, hcnt, hflag]
  by_cases hp : p ∈ st.purgedList
  · have hpurged := (h.purged_flag p hp).1
    by_cases hz : out p = 0
    · refine Or.inr ⟨?_, h.leavePurgedList hp hz, hp, hz⟩
      have hzero : toInt32 (out p) = 0 := (toInt32_eq_zero hout).mpr hz
      rw [hzero, hpurged]
      rfl
    · have hkeep : 0 < out p := Nat.pos_of_ne_zero hz
      refine Or.inl ⟨?_, h.borrowDec fun _ => hkeep, fun _ => hkeep⟩
      have hne : toInt32 (out p) ≠ 0 := fun he => hz ((toInt32_eq_zero hout).mp he)
      by_cases hneg : toInt32 (out p) < 0
      · rw [if_pos hneg]
      · rw [if_neg hneg, hpurged, if_neg (by decide), if_pos (by omega)]
  · refine Or.inl ⟨?_, h.borrowDec fun hm => absurd hm hp, fun hm => absurd hm hp⟩
    rw [h.list_flag p (hmem.resolve_right hp)]
    split
    · rfl
    · rfl

end

/-! ## flag の立った entry -/

/-- flag の立った entry は、purged の列にあるか、`free` されたか、`free` を待っている。 -/
def Flagged (st : FileLru) (pend : Nat → Prop) : Prop :=
  ∀ p < st.next, (st.entry p).purged = true → p ∈ st.purgedList ∨ p ∈ st.freed ∨ pend p

section

variable {st st' : FileLru} {own pend : Nat → Prop} {out : Nat → Nat} {p : Nat} {io : ForestIo Nat}

theorem Flagged.mono (h : Flagged st pend) {pend' : Nat → Prop} (hnext : st'.next = st.next)
    (hflag : ∀ q, (st'.entry q).purged = (st.entry q).purged)
    (hkeep : ∀ q, q ∈ st.purgedList ∨ q ∈ st.freed ∨ pend q →
      q ∈ st'.purgedList ∨ q ∈ st'.freed ∨ pend' q) : Flagged st' pend' := by
  intro q hq hp
  rw [hnext] at hq
  rw [hflag] at hp
  exact hkeep q (h q hq hp)

theorem FileLru.purged_borrowInc (st : FileLru) (p q : Nat) :
    ((st.borrowInc p).entry q).purged = (st.entry q).purged := by
  rw [st.entry_borrowInc]
  split
  · next he => rw [he]
  · rfl

theorem FileLru.purged_borrowDec (st : FileLru) (p q : Nat) :
    ((st.borrowDec p).entry q).purged = (st.entry q).purged := by
  rw [st.entry_borrowDec]
  split
  · next he => rw [he]
  · rfl

theorem Flagged.leave (h : Flagged st pend) (hl : st.leave io p = some st') : Flagged st' pend := by
  obtain ⟨rb, -, rfl⟩ := FileLru.leave_eq_some hl
  exact h

theorem Flagged.joinPurged (h : Flagged st pend) (p : Nat) : Flagged (st.joinPurged p) pend := by
  intro q hq hp
  by_cases hqp : q = p
  · exact Or.inl (hqp ▸ List.mem_cons_self)
  · have he : ((st.joinPurged p).entry q) = st.entry q := Function.update_of_ne hqp _ _
    rw [he] at hp
    exact (h q hq hp).imp_left fun hm => List.mem_cons_of_mem p hm

theorem Flagged.free (h : Flagged st pend) (p : Nat) : Flagged (st.free p) pend :=
  fun q hq hp => (h q hq hp).imp_right fun hr => hr.imp_left fun hm => List.mem_cons_of_mem p hm

theorem Flagged.alloc (h : Flagged st pend) {fileName : CStr} {size : Int} (data : List UInt8) :
    Flagged (st.alloc (.ofFile fileName size data)) pend := by
  intro q hq hp
  have hq : q < st.next + 1 := hq
  by_cases hqn : q = st.next
  · subst hqn
    have he : (st.alloc (.ofFile fileName size data)).entry st.next
        = .ofFile fileName size data := Function.update_self ..
    rw [he] at hp
    cases hp
  · have he : (st.alloc (.ofFile fileName size data)).entry q = st.entry q :=
      Function.update_of_ne hqn _ _
    rw [he] at hp
    exact h q (by omega) hp

/-- 持たれている entry の flag は、追い出しでは変わらない。 -/
structure Evicting (own pend : Nat → Prop) (out : Nat → Nat) (old st : FileLru) : Prop where
  life : LifeInv st own out
  flagged : Flagged st pend
  flag : ∀ q, own q → (st.entry q).purged = (old.entry q).purged

theorem Evicting.joinPurged {old : FileLru} (h : Evicting own pend out old st) (hp : p ∈ st.list)
    (hl : st.leave io p = some st') (hout : 0 < out p) :
    Evicting own pend out old (st'.joinPurged p) where
  life := h.life.leavePurged hp hl hout
  flagged := (h.flagged.leave hl).joinPurged p
  flag q hq := by
    have hqp : q ≠ p := fun he => h.life.own_not q hq (he ▸ hp)
    have he : (st'.joinPurged p).entry q = st'.entry q := Function.update_of_ne hqp _ _
    rw [he]
    obtain ⟨rb, -, rfl⟩ := FileLru.leave_eq_some hl
    exact h.flag q hq

theorem LifeInv.out_of_cnt (h : LifeInv st own out) (hbound : ∀ q, out q < 2 ^ 32) (hp : p ∈ st.list) :
    (st.entry p).borrowCnt = 0 ↔ out p = 0 := by
  rw [h.cnt p (h.list_lt p hp)]
  exact toInt32_eq_zero (hbound p)

/-- **追い出しは、借りられている entry を purged の列に移し、ほかは `free` する。** -/
theorem Evicting.evict {old : FileLru} (h : Evicting own pend out old st)
    (hbound : ∀ q, out q < 2 ^ 32) (hp : p ∈ st.list) (hl : st.leave io p = some st') :
    Evicting own pend out old (st'.evict p) := by
  -- `lru_size_total` は寿命に関わらない
  let counted : FileLru := { st' with lruSizeTotal := toInt32 (st'.lruSizeTotal - (st'.entry p).fileSize) }
  have hentry : st'.entry = st.entry := by
    obtain ⟨rb, -, rfl⟩ := FileLru.leave_eq_some hl
    rfl
  have hcnt : (st'.entry p).borrowCnt = 0 ↔ out p = 0 := by
    rw [hentry]
    exact h.life.out_of_cnt hbound hp
  have hevict : st'.evict p = if (st'.entry p).borrowCnt ≠ 0 then counted.joinPurged p
      else counted.free p := rfl
  have hsame : ∀ s : FileLru, SameLife s { s with lruSizeTotal := counted.lruSizeTotal } := fun s =>
    ⟨⟨rfl, rfl, rfl, fun _ => rfl, fun _ => rfl⟩, rfl, rfl, rfl⟩
  rw [hevict]
  split
  · next hne =>
    have hpos : 0 < out p := Nat.pos_of_ne_zero fun hz => hne (hcnt.mpr hz)
    have hjoin := h.joinPurged hp hl hpos
    exact ⟨hjoin.life.congr (hsame _), hjoin.flagged, hjoin.flag⟩
  · next hz =>
    have hz : out p = 0 := hcnt.mp (not_not.mp hz)
    have hown : ¬ own p := fun ho => h.life.own_not p ho hp
    have hfree := ((h.life.leave hp hl hz).free (p := p) (Or.inr rfl)).congr_own (o := own)
      fun q hq => ⟨Or.inl hq, fun he => hown (he ▸ hq)⟩
    refine ⟨hfree.congr (hsame _), (h.flagged.leave hl).free p, fun q hq => ?_⟩
    show (st'.entry q).purged = _
    rw [hentry]
    exact h.flag q hq

end

end Esq
