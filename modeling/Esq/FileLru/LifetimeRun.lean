import Esq.FileLru.Lifetime
import Esq.FileLru.Accounting

/-!
# どの並びでも守られる寿命

借りたものだけを、借りた数だけ返す呼び手がどう並んでも、同じ entry の借りが 2 ^ 32 に達しなければ、
借りられている entry は `free` されず、どの entry も `free` されるのは一度までであり、purge された entry は
最後の借りを返した呼び手が `free` する（`file_lru_lifetime`）。
-/

namespace Esq

open Infra

/-! ## 性質 -/

def returnsOwn (w : LruWorld) : LruOp → Prop
  | .call c (.giveBack p) => (c, p) ∈ w.borrowed
  | _ => True

structure Lifetime (w : LruWorld) : Prop where
  borrowed : ∀ c p, (c, p) ∈ w.borrowed → p ∉ w.lru.freed
  once : w.lru.freed.Nodup
  /-- purge された entry は、最後の借りが返ると `free` されるか、返した呼び手が `free` するところである -/
  released : ∀ p < w.lru.next, (w.lru.entry p).purged = true →
    (w.outstanding p = 0 ↔ p ∈ w.lru.freed ∨ ∃ c, w.pc c = .free p false)

/-- 最後の借りが返る一歩は返した呼び手のものであり、その呼び手は次に `free` する。 -/
def ReleasedByLast (w : LruWorld) (op : LruOp) : Prop :=
  ∀ w', lruStep w op = some w' → ∀ p < w.lru.next, (w.lru.entry p).purged = true →
    0 < w.outstanding p → w'.outstanding p = 0 →
    ∃ c io, op = .run c io ∧ w.pc c = .giveBack p ∧ w'.pc c = .free p false ∧ p ∉ w'.lru.freed ∧
      ∀ io' w'', lruStep w' (.run c io') = some w'' → p ∈ w''.lru.freed

/-! ## 不変量 -/

structure LifeWorld (w : LruWorld) : Prop where
  life : LifeInv w.lru (w.Owns LruPc.owned) w.outstanding
  once : w.OwnOnce LruPc.owned
  returning : ∀ c p, w.pc c = .giveBack p → (c, p) ∈ w.borrowed
  fresh : ∀ c p, w.pc c = .insert p → (w.lru.entry p).purged = false
  flagged : Flagged w.lru fun p => ∃ c, w.pc c = .free p false

section

variable {w w' : LruWorld} {c p : Nat} {k : LruPc}

theorem outstanding_lend (w : LruWorld) (c p : Nat) :
    (w.lend c p).outstanding = lendCount w.outstanding p := by
  funext q
  show ((p :: w.borrowed.map Prod.snd).count q) = _
  rw [List.count_cons]
  simp only [lendCount, LruWorld.outstanding, beq_iff_eq, eq_comm (a := p)]

theorem outstanding_erase (h : (c, p) ∈ w.borrowed) (hb : w'.borrowed = w.borrowed.erase (c, p)) :
    w.outstanding = lendCount w'.outstanding p := by
  funext q
  have hperm := ((List.perm_cons_erase h).map Prod.snd).count_eq q
  unfold LruWorld.outstanding
  rw [hperm, List.map_cons, List.count_cons]
  simp only [lendCount, hb, beq_iff_eq, eq_comm (a := p)]

theorem outstanding_pos (h : (c, p) ∈ w.borrowed) : 0 < w.outstanding p :=
  List.count_pos_iff.mpr (List.mem_map_of_mem (f := Prod.snd) h)

theorem LifeWorld.move (h : LifeWorld w) {o : Nat → Prop}
    (hlife : LifeInv w'.lru o w'.outstanding) (hpc : w'.pc = Function.update w.pc c k)
    (hown : ∀ q, k.owned = some q ∨ (w.Owns LruPc.owned q ∧ (w.pc c).owned ≠ some q) → o q)
    (hfreshOwn : ∀ q, k.owned = some q → ¬ w.Owns LruPc.owned q ∨ (w.pc c).owned = some q)
    (hreturn : ∀ q, k = .giveBack q → (c, q) ∈ w'.borrowed)
    (hborrowed : ∀ c', c' ≠ c → ∀ q, (c', q) ∈ w.borrowed → (c', q) ∈ w'.borrowed)
    (hinsert : ∀ q, k = .insert q → (w'.lru.entry q).purged = false)
    (hflag : ∀ q, w.Owns LruPc.owned q → (w'.lru.entry q).purged = (w.lru.entry q).purged)
    (hflagged : Flagged w'.lru fun q => ∃ c, w'.pc c = .free q false) : LifeWorld w' where
  life := by
    refine hlife.congr_own fun q hq => hown q (h.once.owns_goto ?_)
    obtain ⟨c', hc'⟩ := hq
    rw [hpc] at hc'
    exact ⟨c', hc'⟩
  once := by
    intro c1 c2 q h1 h2
    rw [hpc] at h1 h2
    exact h.once.goto hfreshOwn c1 c2 q h1 h2
  returning := by
    intro c' q hq
    rw [hpc] at hq
    by_cases hc : c' = c
    · subst hc
      rw [Function.update_self] at hq
      exact hreturn q hq
    · rw [Function.update_of_ne hc] at hq
      exact hborrowed c' hc q (h.returning c' q hq)
  fresh := by
    intro c' q hq
    rw [hpc] at hq
    by_cases hc : c' = c
    · subst hc
      rw [Function.update_self] at hq
      exact hinsert q hq
    · rw [Function.update_of_ne hc] at hq
      rw [hflag q ⟨c', by rw [hq]; rfl⟩]
      exact h.fresh c' q hq
  flagged := hflagged

theorem pending_move (hpc : w'.pc = Function.update w.pc c k) {q : Nat}
    (hc : w.pc c ≠ .free q false) (h : ∃ c, w.pc c = .free q false) :
    ∃ c, w'.pc c = .free q false := by
  obtain ⟨c', hc'⟩ := h
  refine ⟨c', ?_⟩
  have hne : c' ≠ c := fun he => hc (he ▸ hc')
  rw [hpc, Function.update_of_ne hne]
  exact hc'

theorem LifeWorld.stroll (h : LifeWorld w) (hlru : w'.lru = w.lru) (hb : w'.borrowed = w.borrowed)
    (hpc : w'.pc = Function.update w.pc c k) (hnone : k.owned = none) (hold : (w.pc c).owned = none)
    (hreturn : ∀ q, k = .giveBack q → (c, q) ∈ w.borrowed) : LifeWorld w' := by
  have hout : w'.outstanding = w.outstanding := by
    unfold LruWorld.outstanding
    rw [hb]
  refine h.move (o := w.Owns LruPc.owned) ?_ hpc ?_ ?_ ?_ ?_ ?_ ?_ ?_
  · rw [hlru, hout]
    exact h.life
  · rintro q (hq | hq)
    · rw [hnone] at hq
      cases hq
    · exact hq.1
  · intro q hq
    rw [hnone] at hq
    cases hq
  · intro q hq
    rw [hb]
    exact hreturn q hq
  · intro c' _ q hq
    rw [hb]
    exact hq
  · intro q hq
    rw [hq] at hnone
    cases hnone
  · intro q _
    rw [hlru]
  · rw [hlru]
    refine h.flagged.mono rfl (fun _ => rfl) fun q hq => hq.imp_right (Or.imp_right ?_)
    refine pending_move hpc fun hc => ?_
    rw [hc] at hold
    cases hold

/-! ## 一歩 -/

theorem LifeWorld.call (h : LifeWorld w) {f : LruCall} (hret : returnsOwn w (.call c f))
    (hs : lruCall w c f = some w') : LifeWorld w' := by
  cases f with
  | borrow fileName =>
    simp only [lruCall] at hs
    split at hs
    · cases hs
    · next hidle =>
      split at hs
      · cases hs
        exact h
      · cases hs
        have hold : (w.pc c).owned = none := by rw [not_not.mp hidle]; rfl
        exact h.stroll rfl rfl rfl rfl hold fun q hq => by cases hq
  | giveBack p =>
    simp only [lruCall] at hs
    split at hs
    · cases hs
    · next hidle =>
      split at hs
      · cases hs
        have hold : (w.pc c).owned = none := by rw [not_not.mp fun hn => hidle (Or.inl hn)]; rfl
        refine h.stroll rfl rfl rfl rfl hold fun q hq => ?_
        cases hq
        exact hret
      · cases hs
        exact h
  | purgeAll =>
    simp only [lruCall] at hs
    split at hs
    · cases hs
    · next hidle =>
      cases hs
      have hold : (w.pc c).owned = none := by rw [not_not.mp hidle]; rfl
      exact h.stroll rfl rfl rfl rfl hold fun q hq => by cases hq

theorem LifeWorld.drop (h : LifeWorld w) (hlife : LifeInv w'.lru (w.Owns LruPc.owned) w'.outstanding)
    (hpc : w'.pc = Function.update w.pc c k) (hidle : k = .idle)
    (hborrowed : ∀ c', c' ≠ c → ∀ q, (c', q) ∈ w.borrowed → (c', q) ∈ w'.borrowed)
    (hflag : ∀ q, w.Owns LruPc.owned q → (w'.lru.entry q).purged = (w.lru.entry q).purged)
    (hflagged : Flagged w'.lru fun q => ∃ c, w'.pc c = .free q false) : LifeWorld w' := by
  subst hidle
  refine h.move hlife hpc ?_ ?_ ?_ hborrowed ?_ hflag hflagged
  · rintro q (hq | hq)
    · cases hq
    · exact hq.1
  · intro q hq
    cases hq
  · intro q hq
    cases hq
  · intro q hq
    cases hq

theorem LifeWorld.borrow (h : LifeWorld w) {io : LruIo} {fileName : CStr}
    (hpc : w.pc c = .borrow fileName) (hs : lruRun w c io = some w') : LifeWorld w' := by
  simp only [lruRun, hpc] at hs
  have hold : (w.pc c).owned = none := by rw [hpc]; rfl
  have hfree : ∀ q, w.pc c ≠ .free q false := fun q hq => by rw [hpc] at hq; cases hq
  unfold fileLruBorrowFind at hs
  split at hs
  · next lru hr =>
    split at hr
    · cases hr
      cases hs
      exact h.stroll rfl rfl rfl rfl hold fun q hq => by cases hq
    · split at hr <;> cases hr
  · next q lru hr =>
    split at hr
    · cases hr
    · split at hr
      · next he =>
        cases hr
        cases hs
        have hm := (h.life.toCacheInv.mem_of_rbFind he).1
        refine h.drop ?_ rfl rfl (fun c' _ q hq => List.mem_cons_of_mem _ hq) ?_ ?_
        · rw [outstanding_lend]
          exact h.life.lend hm
        · intro q' _
          exact w.lru.purged_borrowInc q q'
        · exact h.flagged.mono rfl (w.lru.purged_borrowInc q) fun q' hq' =>
            hq'.imp_right (Or.imp_right (pending_move rfl (hfree q')))
      · cases hr
  · next lru hr =>
    split at hr
    · cases hr
    · split at hr
      · cases hr
      · cases hr
        cases hs
        exact h.stroll rfl rfl rfl rfl hold fun q hq => by cases hq

theorem LifeWorld.load (h : LifeWorld w) {io : LruIo} {fileName : CStr}
    (hpc : w.pc c = .load fileName) (hs : lruRun w c io = some w') : LifeWorld w' := by
  simp only [lruRun, hpc] at hs
  have hold : (w.pc c).owned = none := by rw [hpc]; rfl
  have hfree : ∀ q, w.pc c ≠ .free q false := fun q hq => by rw [hpc] at hq; cases hq
  have hold' : ∀ {size : Int} (q : Nat), w.Owns LruPc.owned q →
      (w.lru.alloc (.ofFile fileName size io.disk.read)).entry q = w.lru.entry q := fun q hq =>
    Function.update_of_ne (h.life.own_lt q hq).ne _ _
  rcases fileLruLoadFromDisk_cases io.disk w.lru fileName with hr | ⟨size, hsize, hr | hr⟩
  · rw [hr] at hs
    cases hs
    exact h.stroll rfl rfl rfl rfl hold fun q hq => by cases hq
  · -- 読めなければ、新しい block をすぐに `free` する
    rw [hr] at hs
    cases hs
    have hnew : ¬ w.Owns LruPc.owned w.lru.next := fun ho => lt_irrefl _ (h.life.own_lt _ ho)
    refine h.drop ?_ rfl rfl (fun _ _ _ hq => hq) ?_ ?_
    · exact ((h.life.alloc hsize io.disk.read).free (Or.inr rfl)).congr_own fun q hq =>
        ⟨Or.inl hq, fun he => hnew (he ▸ hq)⟩
    · intro q hq
      exact congrArg FileLruEntry.purged (hold' q hq)
    · exact ((h.flagged.alloc io.disk.read).free _).mono rfl (fun _ => rfl) fun q hq =>
        hq.imp_right (Or.imp_right (pending_move rfl (hfree q)))
  · rw [hr] at hs
    cases hs
    refine h.move (k := .insert w.lru.next) (h.life.alloc hsize io.disk.read) rfl ?_ ?_ ?_
      (fun _ _ _ hq => hq) ?_ ?_ ?_
    · rintro q (hq | ⟨hq, -⟩)
      · exact Or.inr (Option.some.inj hq).symm
      · exact Or.inl hq
    · intro q hq
      cases hq
      exact Or.inl fun hown => lt_irrefl _ (h.life.own_lt _ hown)
    · intro q hq
      cases hq
    · intro q hq
      cases hq
      show (Function.update w.lru.entry w.lru.next _ w.lru.next).purged = false
      rw [Function.update_self]
      rfl
    · intro q hq
      exact congrArg FileLruEntry.purged (hold' q hq)
    · exact (h.flagged.alloc io.disk.read).mono rfl (fun _ => rfl) fun q hq =>
        hq.imp_right (Or.imp_right (pending_move rfl (hfree q)))

theorem LifeWorld.free (h : LifeWorld w) {io : LruIo} {again : Bool}
    (hpc : w.pc c = .free p again) (hs : lruRun w c io = some w') : LifeWorld w' := by
  simp only [lruRun, hpc] at hs
  cases hs
  have hp : w.Owns LruPc.owned p := ⟨c, by rw [hpc]; rfl⟩
  refine h.move (k := if again then .purgeAll else .idle) (h.life.free hp) rfl ?_ ?_ ?_
    (fun _ _ _ hq => hq) ?_ (fun _ _ => rfl) ?_
  · rintro q (hq | ⟨hq, hne⟩)
    · cases again <;> cases hq
    · refine ⟨hq, fun he => hne ?_⟩
      rw [he, hpc]
      rfl
  · intro q hq
    cases again <;> cases hq
  · intro q hq
    cases again <;> cases hq
  · intro q hq
    cases again <;> cases hq
  · refine (h.flagged.free p).mono rfl (fun _ => rfl) fun q hq => ?_
    rcases hq with hq | hq | hq
    · exact Or.inl hq
    · exact Or.inr (Or.inl hq)
    · by_cases hqp : q = p
      · exact Or.inr (Or.inl (hqp ▸ List.mem_cons_self))
      · refine Or.inr (Or.inr (pending_move rfl (fun hc => hqp ?_) hq))
        rw [hpc] at hc
        cases hc
        rfl

theorem fileLruBorrowJoin_flags {st st' : FileLru} {io : ForestIo Nat}
    (hj : fileLruBorrowJoin io st p = some st') :
    st'.next = st.next ∧ st'.purgedList = st.purgedList ∧ st'.freed = st.freed ∧
      ∀ q, (st'.entry q).purged = (st.entry q).purged := by
  unfold fileLruBorrowJoin at hj
  obtain ⟨s, hs, rfl⟩ := Option.map_eq_some_iff.mp hj
  obtain ⟨rb, -, rfl⟩ := FileLru.rbInsert_eq_some hs
  exact ⟨rfl, rfl, rfl, st.purged_borrowInc p⟩

theorem LifeWorld.insert (h : LifeWorld w) {io : LruIo} (hpc : w.pc c = .insert p)
    (hbound : ∀ q, w.outstanding q < 2 ^ 32) (hs : lruRun w c io = some w') : LifeWorld w' := by
  simp only [lruRun, hpc] at hs
  have hp : w.Owns LruPc.owned p := ⟨c, by rw [hpc]; rfl⟩
  have hpown : (w.pc c).owned = some p := by rw [hpc]; rfl
  have hfree : ∀ q, w.pc c ≠ .free q false := fun q hq => by rw [hpc] at hq; cases hq
  -- `p` を `free` するところに進むとき、持つ者は変わらない
  have hkeep : ∀ q, LruPc.owned (.free p false) = some q ∨
      (w.Owns LruPc.owned q ∧ (w.pc c).owned ≠ some q) → w.Owns LruPc.owned q := by
    rintro q (hq | hq)
    · cases hq
      exact hp
    · exact hq.1
  have hsame : ∀ q, LruPc.owned (.free p false) = some q →
      ¬ w.Owns LruPc.owned q ∨ (w.pc c).owned = some q := by
    intro q hq
    cases hq
    exact Or.inr hpown
  cases hr : fileLruBorrowInsert io.rb w.lru p with
  | none =>
    rw [hr] at hs
    cases hs
  | some r =>
    obtain ⟨r, lru⟩ := r
    rw [hr] at hs
    rcases fileLruBorrowInsert_cases hr with ⟨e, rfl, he, rfl⟩ | ⟨rfl, rfl⟩ |
      ⟨s, rfl, -, -, hroom, hjoin⟩
    · cases hs
      have hm := (h.life.toCacheInv.mem_of_rbFind he).1
      refine h.move ?_ rfl hkeep hsame (fun q hq => by cases hq)
        (fun c' _ q hq => List.mem_cons_of_mem _ hq) (fun q hq => by cases hq) ?_ ?_
      · rw [outstanding_lend]
        exact (h.life.lend hm).toHead hm
      · intro q _
        exact w.lru.purged_borrowInc e q
      · exact h.flagged.mono rfl (w.lru.purged_borrowInc e) fun q hq =>
          hq.imp_right (Or.imp_right (pending_move rfl (hfree q)))
    · cases hs
      refine h.move (k := .free p false) h.life rfl hkeep hsame (fun q hq => by cases hq)
        (fun _ _ _ hq => hq) (fun q hq => by cases hq) (fun _ _ => rfl) ?_
      exact h.flagged.mono rfl (fun _ => rfl) fun q hq =>
        hq.imp_right (Or.imp_right (pending_move rfl (hfree q)))
    · cases hs
      have hevict : Evicting (w.Owns LruPc.owned) (fun q => ∃ c, w.pc c = .free q false)
          w.outstanding w.lru s :=
        fileLruMakeRoom_rule (fun _ _ _ hev hm hl => hev.evict hbound hm hl)
          ⟨h.life, h.flagged, fun _ _ => rfl⟩ h.life.nodup hroom
      obtain ⟨hnext, hpurged, hfreed, hflags⟩ := fileLruBorrowJoin_flags hjoin
      have hfresh : (s.entry p).purged = false := by
        rw [hevict.flag p hp]
        exact h.fresh c p hpc
      refine h.move (k := .idle) (o := fun q => w.Owns LruPc.owned q ∧ q ≠ p) ?_ rfl ?_
        (fun q hq => by cases hq) (fun q hq => by cases hq)
        (fun c' _ q hq => List.mem_cons_of_mem _ hq) (fun q hq => by cases hq) ?_ ?_
      · rw [outstanding_lend]
        exact hevict.life.join hp hfresh hjoin
      · rintro q (hq | ⟨hq, hne⟩)
        · cases hq
        · refine ⟨hq, fun hqp => hne ?_⟩
          rw [hqp]
          exact hpown
      · intro q hq
        exact (hflags q).trans (hevict.flag q hq)
      · refine hevict.flagged.mono hnext hflags fun q hq => ?_
        show q ∈ lru.purgedList ∨ q ∈ lru.freed ∨ _
        rw [hpurged, hfreed]
        exact hq.imp_right (Or.imp_right (pending_move rfl (hfree q)))

theorem LifeWorld.giveBack_cases (h : LifeWorld w) {io : LruIo} (hpc : w.pc c = .giveBack p)
    (hbound : ∀ q, w.outstanding q < 2 ^ 32) (hs : lruRun w c io = some w') :
    w'.borrowed = w.borrowed.erase (c, p) ∧
      ((w'.lru = w.lru.borrowDec p ∧ w'.pc = Function.update w.pc c .idle ∧
          LifeInv w'.lru (w.Owns LruPc.owned) w'.outstanding ∧
          (p ∈ w.lru.purgedList → 0 < w'.outstanding p)) ∨
        (w'.lru = { w.lru.borrowDec p with purgedList := w.lru.purgedList.erase p } ∧
          w'.pc = Function.update w.pc c (.free p false) ∧
          LifeInv w'.lru (fun q => w.Owns LruPc.owned q ∨ q = p) w'.outstanding ∧
          p ∈ w.lru.purgedList)) := by
  simp only [lruRun, hpc] at hs
  have hout : w.outstanding
      = lendCount (LruWorld.outstanding ⟨w.lru, w.pc, w.borrowed.erase (c, p)⟩) p :=
    outstanding_erase (h.returning c p hpc) rfl
  have hlife := h.life
  rw [hout] at hlife
  have hlt := hbound p
  rw [hout, lendCount_self] at hlt
  rcases hlife.giveBack (by omega) with ⟨hr, hinv, hkeep⟩ | ⟨hr, hinv, hm, -⟩
  · rw [hr] at hs
    cases hs
    exact ⟨rfl, Or.inl ⟨rfl, rfl, hinv, hkeep⟩⟩
  · rw [hr] at hs
    cases hs
    exact ⟨rfl, Or.inr ⟨rfl, rfl, hinv, hm⟩⟩

theorem LifeWorld.giveBack (h : LifeWorld w) {io : LruIo} (hpc : w.pc c = .giveBack p)
    (hbound : ∀ q, w.outstanding q < 2 ^ 32) (hs : lruRun w c io = some w') : LifeWorld w' := by
  have hfree : ∀ q, w.pc c ≠ .free q false := fun q hq => by rw [hpc] at hq; cases hq
  obtain ⟨hb, ⟨hlru, hnext, hinv, -⟩ | ⟨hlru, hnext, hinv, hm⟩⟩ := h.giveBack_cases hpc hbound hs
  all_goals
    -- ほかの呼び手の借りは残る
    have hborrowed : ∀ c', c' ≠ c → ∀ q, (c', q) ∈ w.borrowed → (c', q) ∈ w'.borrowed := by
      intro c' hne q hq
      rw [hb]
      exact (List.mem_erase_of_ne fun he => hne (congrArg Prod.fst he)).mpr hq
    have hflag : ∀ q, (w'.lru.entry q).purged = (w.lru.entry q).purged := by
      intro q
      rw [hlru]
      exact w.lru.purged_borrowDec p q
  · refine h.drop hinv hnext rfl hborrowed (fun q _ => hflag q) ?_
    refine h.flagged.mono (by rw [hlru]; rfl) hflag fun q hq => ?_
    rw [hlru]
    exact hq.imp_right (Or.imp_right (pending_move hnext (hfree q)))
  · refine h.move hinv hnext ?_ ?_ (fun q hq => by cases hq) hborrowed (fun q hq => by cases hq)
      (fun q _ => hflag q) ?_
    · rintro q (hq | hq)
      · exact Or.inr (Option.some.inj hq).symm
      · exact Or.inl hq.1
    · intro q hq
      cases hq
      exact Or.inl (h.life.purged_own p hm)
    · refine h.flagged.mono (by rw [hlru]; rfl) hflag fun q hq => ?_
      rw [hlru]
      by_cases hqp : q = p
      · exact Or.inr (Or.inr ⟨c, by rw [hnext, Function.update_self, hqp]⟩)
      · exact hq.imp (fun hq => (List.mem_erase_of_ne hqp).mpr hq)
          (Or.imp_right (pending_move hnext (hfree q)))

theorem LifeWorld.purgeAll (h : LifeWorld w) {io : LruIo} (hpc : w.pc c = .purgeAll)
    (hbound : ∀ q, w.outstanding q < 2 ^ 32) (hs : lruRun w c io = some w') : LifeWorld w' := by
  simp only [lruRun, hpc] at hs
  have hfree : ∀ q, w.pc c ≠ .free q false := fun q hq => by rw [hpc] at hq; cases hq
  cases hr : fileLruPurgeAll io.rb w.lru with
  | none =>
    rw [hr] at hs
    cases hs
  | some r =>
    obtain ⟨r, lru⟩ := r
    rw [hr] at hs
    have hrule := fileLruPurgeAll_rule (P := Evicting (w.Owns LruPc.owned)
        (fun q => ∃ c, w.pc c = .free q false) w.outstanding w.lru)
      (fun s p s' hev hm hl hcnt => by
        refine hev.joinPurged hm hl (Nat.pos_of_ne_zero fun hz => hcnt ?_)
        have hentry : s'.entry = s.entry := by
          obtain ⟨rb, -, rfl⟩ := FileLru.leave_eq_some hl
          rfl
        rw [hentry]
        exact (hev.life.out_of_cnt hbound hm).mpr hz)
      ⟨h.life, h.flagged, fun _ _ => rfl⟩ h.life.nodup hr
    rcases hrule with ⟨rfl, hev⟩ | ⟨p, s, rfl, hev, hm, hl, hcnt⟩
    · cases hs
      refine h.drop hev.life rfl rfl (fun _ _ _ hq => hq) hev.flag ?_
      exact hev.flagged.mono rfl (fun _ => rfl) fun q hq =>
        hq.imp_right (Or.imp_right (pending_move rfl (hfree q)))
    · cases hs
      have hentry : lru.entry = s.entry := by
        obtain ⟨rb, -, rfl⟩ := FileLru.leave_eq_some hl
        rfl
      have hz : w.outstanding p = 0 := by
        rw [hentry] at hcnt
        exact (hev.life.out_of_cnt hbound hm).mp hcnt
      refine h.move (k := .free p true) (hev.life.leave hm hl hz) rfl ?_ ?_
        (fun q hq => by cases hq) (fun _ _ _ hq => hq) (fun q hq => by cases hq) ?_ ?_
      · rintro q (hq | hq)
        · exact Or.inr (Option.some.inj hq).symm
        · exact Or.inl hq.1
      · intro q hq
        cases hq
        exact Or.inl fun hown => hev.life.own_not p hown hm
      · intro q hq
        show (lru.entry q).purged = _
        rw [hentry]
        exact hev.flag q hq
      · exact (hev.flagged.leave hl).mono rfl (fun _ => rfl) fun q hq =>
          hq.imp_right (Or.imp_right (pending_move rfl (hfree q)))

theorem LifeWorld.congr (h : LifeWorld w) {lru : FileLru} (hs : SameLife w.lru lru) :
    LifeWorld { w with lru } where
  life := h.life.congr hs
  once := h.once
  returning := h.returning
  fresh c p hp := by
    show (lru.entry p).purged = false
    rw [hs.entry]
    exact h.fresh c p hp
  flagged := by
    refine h.flagged.mono hs.next (fun q => by rw [hs.entry]) fun q hq => ?_
    rw [hs.purgedList, hs.freed]
    exact hq

/-- **借りたものだけを返す一歩は、不変量を保つ。** -/
theorem lifeWorld_step (h : LifeWorld w) {op : LruOp} (hret : returnsOwn w op)
    (hbound : ∀ p, w.outstanding p < 2 ^ 32) (hs : lruStep w op = some w') : LifeWorld w' := by
  cases op with
  | call c f => exact h.call hret hs
  | setup stat rootPath max =>
    cases hs
    refine h.congr ?_
    unfold fileLruSetup
    split
    · exact ⟨.refl _, rfl, rfl, rfl⟩
    · split <;> exact ⟨⟨rfl, rfl, rfl, fun _ => rfl, fun _ => rfl⟩, rfl, rfl, rfl⟩
  | setBloom bf =>
    cases hs
    exact h.congr ⟨⟨rfl, rfl, rfl, fun _ => rfl, fun _ => rfl⟩, rfl, rfl, rfl⟩
  | run c io =>
    have hs : lruRun w c io = some w' := hs
    cases hpc : w.pc c with
    | idle =>
      simp only [lruRun, hpc] at hs
      cases hs
    | borrow fileName => exact h.borrow hpc hs
    | load fileName => exact h.load hpc hs
    | insert p => exact h.insert hpc hbound hs
    | free p again => exact h.free hpc hs
    | giveBack p => exact h.giveBack hpc hbound hs
    | purgeAll => exact h.purgeAll hpc hbound hs

theorem lifeWorld_init : LifeWorld .init where
  life :=
    { (cacheWorld_init LruPc.owned rfl).cache with
      purged_nodup := List.nodup_nil
      purged_lt := fun _ hp => by cases hp
      purged_not := fun _ hp => by cases hp
      purged_own := fun _ hp => by cases hp
      list_flag := fun _ hp => by cases hp
      purged_flag := fun _ hp => by cases hp
      cnt := fun p hp => absurd hp (Nat.not_lt_zero p)
      out_pos := fun p hp => absurd hp (lt_irrefl 0)
      freed_nodup := List.nodup_nil
      freed_lt := fun _ hp => by cases hp
      freed_not := fun _ hp => by cases hp
      magic := fun p hp => absurd hp (Nat.not_lt_zero p) }
  once := (cacheWorld_init LruPc.owned rfl).once
  returning c p hp := by
    have hp : LruPc.idle = .giveBack p := hp
    cases hp
  fresh c p hp := by
    have hp : LruPc.idle = .insert p := hp
    cases hp
  flagged p hp := absurd hp (Nat.not_lt_zero p)

/-! ## 性質を導く -/

theorem LifeWorld.lifetime (h : LifeWorld w) : Lifetime w where
  borrowed _ p hp := h.life.not_freed (outstanding_pos hp)
  once := h.life.freed_nodup
  released p hp hflag := by
    constructor
    · intro hz
      rcases h.flagged p hp hflag with hm | hm
      · exact absurd hz (h.life.purged_flag p hm).2.ne'
      · exact hm
    · rintro (hm | ⟨c, hc⟩)
      · by_contra hne
        exact h.life.not_freed (Nat.pos_of_ne_zero hne) hm
      · exact h.life.own_out ⟨c, by rw [hc]; rfl⟩

theorem borrowed_step {op : LruOp} (hs : lruStep w op = some w') :
    (∃ c io p, op = .run c io ∧ w.pc c = .giveBack p) ∨ ∃ l, w'.borrowed = l ++ w.borrowed := by
  cases op with
  | call c f =>
    have hs : lruCall w c f = some w' := hs
    refine Or.inr ⟨[], ?_⟩
    unfold lruCall at hs
    cases f with
    | borrow fileName =>
      dsimp only at hs
      split at hs
      · cases hs
      · split at hs <;> cases hs <;> rfl
    | giveBack p =>
      dsimp only at hs
      split at hs
      · cases hs
      · split at hs <;> cases hs <;> rfl
    | purgeAll =>
      dsimp only at hs
      split at hs <;> cases hs
      rfl
  | setup stat rootPath max =>
    cases hs
    exact Or.inr ⟨[], rfl⟩
  | setBloom bf =>
    cases hs
    exact Or.inr ⟨[], rfl⟩
  | run c io =>
    have hs : lruRun w c io = some w' := hs
    by_cases hback : ∃ p, w.pc c = .giveBack p
    · obtain ⟨p, hp⟩ := hback
      exact Or.inl ⟨c, io, p, rfl, hp⟩
    · refine Or.inr ?_
      unfold lruRun at hs
      split at hs
      · cases hs
      · split at hs <;> cases hs
        · exact ⟨[], rfl⟩
        · exact ⟨[_], rfl⟩
        · exact ⟨[], rfl⟩
      · split at hs <;> cases hs <;> exact ⟨[], rfl⟩
      · split at hs <;> cases hs
        · exact ⟨[_], rfl⟩
        · exact ⟨[], rfl⟩
        · exact ⟨[_], rfl⟩
      · cases hs
        exact ⟨[], rfl⟩
      · next p hp => exact absurd ⟨p, hp⟩ hback
      · split at hs <;> cases hs <;> exact ⟨[], rfl⟩

/-- **purge された entry の最後の借りを返した呼び手が、次に `free` する。** -/
theorem LifeWorld.releasedByLast (h : LifeWorld w) {op : LruOp} (hret : returnsOwn w op)
    (hbound : ∀ p, w.outstanding p < 2 ^ 32) : ReleasedByLast w op := by
  intro w' hs p hp hflag hpos hz
  have hnext := lifeWorld_step h hret hbound hs
  rcases borrowed_step hs with ⟨c, io, q, rfl, hpc⟩ | ⟨l, hl⟩
  · obtain ⟨hb, hcases⟩ := h.giveBack_cases hpc hbound hs
    have hout := outstanding_erase (h.returning c q hpc) hb
    -- 減ったのは `q` の借りだけである
    have hqp : p = q := by
      by_contra hne
      rw [hout, lendCount_of_ne _ hne] at hpos
      exact hpos.ne' hz
    subst hqp
    rcases hcases with ⟨-, -, -, hkeep⟩ | ⟨-, hpc', -, -⟩
    · exfalso
      rcases h.flagged p hp hflag with hm | hm | ⟨c', hc'⟩
      · exact (hkeep hm).ne' hz
      · exact h.life.not_freed hpos hm
      · exact hpos.ne' (h.life.own_out ⟨c', by rw [hc']; rfl⟩)
    · have hfree : w'.pc c = .free p false := by rw [hpc', Function.update_self]
      refine ⟨c, io, rfl, hpc, hfree, ?_, fun io' w'' hs' => ?_⟩
      · exact fun hm => (hnext.life.freed_not p hm).2.2 ⟨c, by rw [hfree]; rfl⟩
      · have hs' : lruRun w' c io' = some w'' := hs'
        simp only [lruRun, hfree] at hs'
        cases hs'
        exact List.mem_cons_self
  · exfalso
    have hle : w.outstanding p ≤ w'.outstanding p := by
      unfold LruWorld.outstanding
      rw [hl, List.map_append, List.count_append]
      exact Nat.le_add_left _ _
    omega

theorem lifeWorld_run : ∀ {ops : List LruOp} {w : LruWorld}, LifeWorld w →
    Along lruStep returnsOwn w ops →
    Throughout lruStep (fun w => ∀ p, w.outstanding p < 2 ^ 32) w ops →
    Throughout lruStep Lifetime w ops ∧ Along lruStep ReleasedByLast w ops
  | [], _, h, _, _ => ⟨h.lifetime, trivial⟩
  | _ :: _, _, h, hret, hbound => by
    have hrest := fun w' hs =>
      lifeWorld_run (lifeWorld_step h hret.1 hbound.1 hs) (hret.2 w' hs) (hbound.2 w' hs)
    exact ⟨⟨h.lifetime, fun w' hs => (hrest w' hs).1⟩, h.releasedByLast hret.1 hbound.1,
      fun w' hs => (hrest w' hs).2⟩

end

/--
**どの並びでも、借りられている entry は `free` されず、`free` は一度までであり、purge された entry は
最後の借りを返した呼び手が `free` する。**

同じ entry の借りは 2 ^ 32 より少ないとする。
-/
theorem file_lru_lifetime (ops : List LruOp) (hret : Along lruStep returnsOwn .init ops)
    (hbound : Throughout lruStep (fun w => ∀ p, w.outstanding p < 2 ^ 32) .init ops) :
    Throughout lruStep Lifetime .init ops ∧ Along lruStep ReleasedByLast .init ops :=
  lifeWorld_run lifeWorld_init hret hbound

/-! ## 例 -/

instance (w : LruWorld) : ∀ op, Decidable (returnsOwn w op)
  | .call _ (.borrow _) => isTrue trivial
  | .call c (.giveBack p) => inferInstanceAs (Decidable ((c, p) ∈ w.borrowed))
  | .call _ .purgeAll => isTrue trivial
  | .run _ _ => isTrue trivial
  | .setup _ _ _ => isTrue trivial
  | .setBloom _ => isTrue trivial

def CStr.sample : CStr := .ofBytes [97]

def sampleBorrowOps : List LruOp :=
  [.setBloom (some (pathBloomFilterNew.addPath [97])), .call 0 (.borrow CStr.sample),
    .run 0 .sample, .run 0 .sample, .run 0 .sample]

/-- 借りている間に、ほかの呼び手が全体を purge し、その後で返す。 -/
def sampleLifeOps : List LruOp :=
  sampleBorrowOps ++ [.call 1 .purgeAll, .run 1 .sample, .call 0 (.giveBack 0), .run 0 .sample,
    .run 0 .sample]

theorem file_lru_lifetime_sample :
    Throughout lruStep Lifetime .init sampleLifeOps ∧
      Along lruStep ReleasedByLast .init sampleLifeOps := by
  refine file_lru_lifetime sampleLifeOps (by decide +kernel) ?_
  have hshort : Throughout lruStep (fun w => w.borrowed.length < 2 ^ 32) .init sampleLifeOps := by
    decide +kernel
  refine hshort.mono fun w hw p => ?_
  have hle := List.count_le_length (a := p) (l := w.borrowed.map Prod.snd)
  rw [List.length_map] at hle
  exact lt_of_le_of_lt hle hw

/-! ## `borrow_cnt` があふれるとき -/

/-- 名前 `a` の entry が、呼び手 0 に `n` 回借りられている。 -/
structure Hot (n : Nat) (w : LruWorld) : Prop where
  pc : w.pc 0 = .idle
  list : w.lru.list = [0]
  rb : w.lru.rb = ⟨.node .nil 0 .nil, []⟩
  key : (w.lru.entry 0).key = fileLruKeyOf CStr.sample
  cnt : (w.lru.entry 0).borrowCnt = toInt32 n
  bloom : pathBloomFilterCheckExist2 w.lru.lruBloomFilter CStr.sample.bytes = true
  borrowed : w.borrowed = List.replicate n (0, 0)

def hitOps : List LruOp := [.call 0 (.borrow CStr.sample), .run 0 .sample]

theorem hot_sample : ∃ w, runFrom lruStep .init sampleBorrowOps = some w ∧ Hot 1 w := by
  have hrun : (runFrom lruStep .init sampleBorrowOps).map (fun w =>
      decide (w.pc 0 = .idle ∧ w.lru.list = [0] ∧ w.lru.rb = ⟨.node .nil 0 .nil, []⟩ ∧
        (w.lru.entry 0).key = fileLruKeyOf CStr.sample ∧ (w.lru.entry 0).borrowCnt = 1 ∧
        pathBloomFilterCheckExist2 w.lru.lruBloomFilter CStr.sample.bytes = true ∧ w.borrowed = [(0, 0)]))
      = some true := by
    decide +kernel
  obtain ⟨w, hw, hall⟩ := Option.map_eq_some_iff.mp hrun
  obtain ⟨hpc, hlist, hrb, hkey, hcnt, hbloom, hborrowed⟩ := of_decide_eq_true hall
  exact ⟨w, hw, hpc, hlist, hrb, hkey, hcnt, hbloom, hborrowed⟩

theorem Hot.hit {n : Nat} {w : LruWorld} (h : Hot n w) :
    ∃ w', runFrom lruStep w hitOps = some w' ∧ Hot (n + 1) w' := by
  have hfind : w.lru.rbFind (fileLruKeyOf CStr.sample) = some 0 := by
    have hcmp : fileLruNameCmp (fileLruKeyOf CStr.sample) (fileLruKeyOf CStr.sample) = 0 := by
      decide +kernel
    unfold FileLru.rbFind SearchForest.find
    rw [h.rb]
    simp only [SearchTree.find, h.key, hcmp]
    rfl
  have hborrow : fileLruBorrowFind w.lru CStr.sample = (.hit 0, w.lru.borrowInc 0) := by
    unfold fileLruBorrowFind
    rw [h.bloom, hfind]
    rfl
  have hcall : lruStep w (.call 0 (.borrow CStr.sample))
      = some (w.goto 0 (.borrow CStr.sample)) := by
    simp only [lruStep, lruCall, h.pc]
    rfl
  have hrun : lruStep (w.goto 0 (.borrow CStr.sample)) (.run 0 .sample)
      = some (({ w.goto 0 (.borrow CStr.sample) with lru := w.lru.borrowInc 0 }.goto 0
          .idle).lend 0 0) := by
    simp only [lruStep, lruRun, LruWorld.pc_goto_self]
    have hlru : (w.goto 0 (.borrow CStr.sample)).lru = w.lru := rfl
    rw [hlru, hborrow]
  refine ⟨({ w.goto 0 (.borrow CStr.sample) with lru := w.lru.borrowInc 0 }.goto 0 .idle).lend 0 0,
    ?_, ?_⟩
  · unfold hitOps
    exact runFrom_cons_eq_some.mpr ⟨_, hcall, runFrom_cons_eq_some.mpr ⟨_, hrun, runFrom_nil⟩⟩
  · refine ⟨rfl, h.list, h.rb, ?_, ?_, h.bloom, ?_⟩
    · exact ((SameCache.borrowInc w.lru 0).key 0).trans h.key
    · show ((w.lru.borrowInc 0).entry 0).borrowCnt = _
      rw [w.lru.entry_borrowInc, if_pos rfl]
      show toInt32 ((w.lru.entry 0).borrowCnt + 1) = _
      rw [h.cnt, toInt32_succ]
    · show (0, 0) :: w.borrowed = _
      rw [h.borrowed, List.replicate_succ]

theorem Hot.hits (k : Nat) : ∀ {n : Nat} {w : LruWorld}, Hot n w →
    ∃ w', runFrom lruStep w (List.replicate k hitOps).flatten = some w' ∧ Hot (n + k) w' := by
  induction k with
  | zero =>
    intro n w h
    exact ⟨w, rfl, h⟩
  | succ k ih =>
    intro n w h
    obtain ⟨t, ht, hhot⟩ := h.hit
    obtain ⟨w', hw', hhot'⟩ := ih hhot
    refine ⟨w', ?_, ?_⟩
    · rw [List.replicate_succ, List.flatten_cons]
      exact runFrom_append_eq_some.mpr ⟨t, ht, hw'⟩
    · have hadd : n + 1 + k = n + (k + 1) := by omega
      exact hadd ▸ hhot'

theorem Hot.freed {n : Nat} {w : LruWorld} (h : Hot n w) (hn : toInt32 n = 0) :
    ∃ w', runFrom lruStep w [.call 0 .purgeAll, .run 0 .sample, .run 0 .sample] = some w' ∧
      w'.borrowed = w.borrowed ∧ 0 ∈ w'.lru.freed := by
  have hcall : lruStep w (.call 0 .purgeAll) = some (w.goto 0 .purgeAll) := by
    simp only [lruStep, lruCall, h.pc]
    rfl
  have hleave : w.lru.leave LruIo.sample.rb 0 = some { w.lru with list := [], rb := ⟨.nil, []⟩ } := by
    unfold FileLru.leave
    rw [h.rb, h.list]
    rfl
  have hpurge : fileLruPurgeAll LruIo.sample.rb w.lru
      = some (some 0, { w.lru with list := [], rb := ⟨.nil, []⟩ }) := by
    unfold fileLruPurgeAll
    rw [h.list]
    unfold fileLruPurgeAllLoop
    rw [hleave]
    dsimp only
    rw [if_neg (by rw [h.cnt, hn]; exact fun hne => hne rfl)]
  have hrun : lruStep (w.goto 0 .purgeAll) (.run 0 .sample)
      = some ({ w.goto 0 .purgeAll with lru := { w.lru with list := [], rb := ⟨.nil, []⟩ } }.goto 0
          (.free 0 true)) := by
    simp only [lruStep, lruRun, LruWorld.pc_goto_self]
    have hlru : (w.goto 0 .purgeAll).lru = w.lru := rfl
    rw [hlru, hpurge]
  refine ⟨_, runFrom_cons_eq_some.mpr ⟨_, hcall, runFrom_cons_eq_some.mpr ⟨_, hrun,
    runFrom_cons_eq_some.mpr ⟨_, rfl, runFrom_nil⟩⟩⟩, rfl, List.mem_cons_self⟩

/--
**同じ entry を 2 ^ 32 回借りると、借りられたまま `free` される。** 返す一歩は一つも無い。
-/
theorem borrow_count_wraps : ∃ ops, Along lruStep returnsOwn .init ops ∧
    ¬ Throughout lruStep Lifetime .init ops := by
  obtain ⟨w1, h1, hot1⟩ := hot_sample
  obtain ⟨w2, h2, hot2⟩ := hot1.hits (2 ^ 32 - 1)
  obtain ⟨w3, h3, hb, hfreed⟩ := hot2.freed (by rw [toInt32_eq]; omega)
  have hrun : runFrom lruStep .init (sampleBorrowOps ++ ((List.replicate (2 ^ 32 - 1) hitOps).flatten ++
      [.call 0 .purgeAll, .run 0 .sample, .run 0 .sample])) = some w3 :=
    runFrom_append_eq_some.mpr ⟨w1, h1, runFrom_append_eq_some.mpr ⟨w2, h2, h3⟩⟩
  refine ⟨_, along_of_forall ?_, fun hlife => absurd ((hlife.last hrun).borrowed 0 0 ?_) ?_⟩
  · intro op hop s
    simp only [List.mem_append, List.mem_flatten, List.mem_replicate] at hop
    rcases hop with hop | ⟨l, ⟨-, rfl⟩, hop⟩ | hop
    · simp only [sampleBorrowOps, List.mem_cons, List.not_mem_nil, or_false] at hop
      rcases hop with rfl | rfl | rfl | rfl | rfl <;> trivial
    · simp only [hitOps, List.mem_cons, List.not_mem_nil, or_false] at hop
      rcases hop with rfl | rfl <;> trivial
    · simp only [List.mem_cons, List.not_mem_nil, or_false] at hop
      rcases hop with rfl | rfl | rfl <;> trivial
  · rw [hb, hot2.borrowed]
    exact List.mem_replicate.mpr ⟨by omega, rfl⟩
  · exact fun hnot => hnot hfreed

end Esq
