import Esq.FileLru.Capacity

/-!
# 追い出す順

列の順は、新しく入れた順である。`file_lru_borrow` が初めの探索で見つけた entry は、列の頭に移らない。
読んだ後の探索で見つけた entry は頭に移るが、一人ずつ呼ぶ間、そこで見つかることはない。

借りた順は `LruHistory` に記す。頭でない entry を借りなければ、列は借りた順に並び、追い出すのは古く借りた
ものからである。
-/

namespace Esq

open Infra

/-! ## 借りた順 -/

structure LruHistory where
  world : LruWorld
  time : Nat
  /-- 最後に借りた時刻 -/
  last : Nat → Nat

def LruHistory.init : LruHistory := ⟨.init, 0, fun _ => 0⟩

def lruLent (w : LruWorld) : LruOp → Option Nat
  | .run c io =>
    match w.pc c with
    | .borrow fileName =>
      match (fileLruBorrowFind w.lru fileName).1 with
      | .hit p => some p
      | _ => none
    | .insert p =>
      match fileLruBorrowInsert io.rb w.lru p with
      | some (.found e, _) => some e
      | some (.inserted, _) => some p
      | _ => none
    | _ => none
  | _ => none

def LruHistory.record (h : LruHistory) : Option Nat → Nat → Nat
  | some p => Function.update h.last p (h.time + 1)
  | none => h.last

def historyStep (h : LruHistory) (op : LruOp) : Option LruHistory :=
  (lruStep h.world op).map fun w =>
    { world := w, time := h.time + 1, last := h.record (lruLent h.world op) }

/-- 入れるために追い出した entry は、残る entry のどれよりも前に借りたものである。 -/
def EvictsOldest (h : LruHistory) (op : LruOp) : Prop :=
  ∀ h', historyStep h op = some h' → InsertsEntry h.world op h'.world →
    ∀ e ∈ h.world.lru.list, e ∉ h'.world.lru.list → ∀ k ∈ h'.world.lru.list, h'.last e < h'.last k

/-- 初めの探索で見つかるのは、列の頭にある entry だけである。 -/
def HitsHead (h : LruHistory) : LruOp → Prop
  | .run c _ => ∀ fileName p, h.world.pc c = .borrow fileName →
      (fileLruBorrowFind h.world.lru fileName).1 = .hit p → h.world.lru.list.head? = some p
  | _ => True

structure RecencyOrder (h : LruHistory) : Prop where
  world : CacheWorld LruPc.inserting h.world
  sorted : h.world.lru.list.Pairwise fun a b => h.last b < h.last a
  past : ∀ p, h.last p ≤ h.time

section

variable {h h' : LruHistory} {op : LruOp} {w w' : LruWorld} {p : Nat}

inductive LentBy (w : LruWorld) (lru : FileLru) : LruOp → Nat → Prop where
  /-- 初めの探索で見つけた -/
  | hit {c : Nat} {io : LruIo} {fileName : CStr} {p : Nat} (hpc : w.pc c = .borrow fileName)
      (hfind : (fileLruBorrowFind w.lru fileName).1 = .hit p) (hlist : lru.list = w.lru.list) :
      LentBy w lru (.run c io) p
  /-- 読んだ後の探索で見つけた -/
  | found {c : Nat} {io : LruIo} {e : Nat} (he : e ∈ w.lru.list)
      (hlist : lru.list = e :: w.lru.list.erase e) : LentBy w lru (.run c io) e
  /-- 入れた -/
  | inserted {c : Nat} {io : LruIo} {p : Nat} {kept evicted : List Nat} (hp : p ∉ w.lru.list)
      (hsplit : w.lru.list = kept ++ evicted) (hlist : lru.list = p :: kept) :
      LentBy w lru (.run c io) p

theorem lentBy_of_lent (hw : CacheWorld LruPc.inserting w) (hs : lruStep w op = some w')
    (hl : lruLent w op = some p) : LentBy w w'.lru op p := by
  cases op with
  | call c f => cases hl
  | setup stat rootPath max => cases hl
  | setBloom bf => cases hl
  | run c io =>
    have hs : lruRun w c io = some w' := hs
    unfold lruRun at hs
    unfold lruLent at hl
    cases hpc : w.pc c with
    | borrow fileName =>
      simp only [hpc] at hs hl
      have hsame := fileLruBorrowFind_same w.lru fileName
      rcases hr : fileLruBorrowFind w.lru fileName with ⟨r, lru⟩
      rw [hr] at hs hl hsame
      cases r with
      | hit q =>
        cases hs
        cases hl
        exact .hit hpc (by rw [hr]) hsame.list
      | blocked => cases hl
      | miss => cases hl
    | insert q =>
      simp only [hpc] at hs hl
      cases hr : fileLruBorrowInsert io.rb w.lru q with
      | none =>
        rw [hr] at hl
        cases hl
      | some r =>
        obtain ⟨r, lru⟩ := r
        rw [hr] at hs hl
        rcases fileLruBorrowInsert_cases hr with ⟨e, rfl, he, rfl⟩ | ⟨rfl, rfl⟩ |
          ⟨s, rfl, -, -, hroom, hjoin⟩
        · cases hs
          cases hl
          exact .found (hw.cache.mem_of_rbFind he).1 rfl
        · cases hl
        · cases hs
          cases hl
          obtain ⟨⟨es, hes⟩, -⟩ := fileLruMakeRoom_list hw.cache.nodup hroom
          exact .inserted (hw.cache.own_not _ ⟨c, by rw [hpc]; rfl⟩) hes
            (fileLruBorrowJoin_sizes hjoin).1
    | idle =>
      simp only [hpc] at hl
      cases hl
    | load fileName =>
      simp only [hpc] at hl
      cases hl
    | free q again =>
      simp only [hpc] at hl
      cases hl
    | giveBack q =>
      simp only [hpc] at hl
      cases hl
    | purgeAll =>
      simp only [hpc] at hl
      cases hl

theorem fileLruPurgeAll_sublist {io : ForestIo Nat} {st st' : FileLru} {r : Option Nat}
    (hnd : st.list.Nodup) (hr : fileLruPurgeAll io st = some (r, st')) :
    st'.list.Sublist st.list := by
  have hleave : ∀ {s s' : FileLru} {q : Nat}, s.list.Sublist st.list → s.leave io q = some s' →
      s'.list.Sublist st.list := fun hs hl => by
    obtain ⟨rb, -, rfl⟩ := FileLru.leave_eq_some hl
    exact List.erase_sublist.trans hs
  rcases fileLruPurgeAll_rule (P := fun s => s.list.Sublist st.list)
    (fun s q s' hs _ hl _ => show s'.list.Sublist st.list from hleave hs hl) (.refl _) hnd hr with
    ⟨-, h'⟩ | ⟨q, s, -, hs, -, hl, -⟩
  · exact h'
  · exact hleave hs hl

theorem sublist_of_not_lent (hw : CacheWorld LruPc.inserting w) (hs : lruStep w op = some w')
    (hl : lruLent w op = none) : w'.lru.list.Sublist w.lru.list := by
  cases lruStep_effect hs with
  | same hsame ht =>
    rw [hsame.list]
  | alloc hpc hsize hsame ht =>
    rw [hsame.list]
    exact .refl _
  | @head c io lru p e hpc he hlru =>
    unfold lruLent fileLruBorrowInsert at hl
    simp only [hpc, he] at hl
    cases hl
  | @join c io lru s p hpc hfind hfit hroom hjoin =>
    unfold lruLent fileLruBorrowInsert at hl
    simp only [hpc, hfind, if_neg hfit, hroom, Option.bind_some, hjoin, Option.map_some] at hl
    cases hl
  | purge hpc hr => exact fileLruPurgeAll_sublist hw.cache.nodup hr

/-! ## 一歩 -/

theorem historyStep_eq_some : historyStep h op = some h' ↔
    ∃ w, lruStep h.world op = some w ∧
      h' = { world := w, time := h.time + 1, last := h.record (lruLent h.world op) } := by
  unfold historyStep
  rw [Option.map_eq_some_iff]
  exact exists_congr fun w => and_congr_right fun _ => eq_comm

theorem LruHistory.record_of_ne {q : Nat} (hne : q ≠ p) : h.record (some p) q = h.last q :=
  Function.update_of_ne hne _ _

theorem LruHistory.record_self : h.record (some p) p = h.time + 1 := Function.update_self ..

theorem RecencyOrder.record_le (hi : RecencyOrder h) (o : Option Nat) (q : Nat) :
    h.record o q ≤ h.time + 1 := by
  cases o with
  | none => exact (hi.past q).trans (Nat.le_succ _)
  | some p =>
    by_cases hq : q = p
    · rw [hq, LruHistory.record_self]
    · rw [LruHistory.record_of_ne hq]
      exact (hi.past q).trans (Nat.le_succ _)

theorem RecencyOrder.cons (hi : RecencyOrder h) {l : List Nat} (hp : p ∉ l)
    (hl : l.Sublist h.world.lru.list) :
    (p :: l).Pairwise fun a b => h.record (some p) b < h.record (some p) a := by
  have hne : ∀ q ∈ l, h.record (some p) q = h.last q := fun q hq =>
    LruHistory.record_of_ne fun he => hp (he ▸ hq)
  refine List.pairwise_cons.mpr ⟨fun q hq => ?_, ?_⟩
  · rw [hne q hq, LruHistory.record_self]
    exact Nat.lt_succ_of_le (hi.past q)
  · refine (hi.sorted.sublist hl).imp_of_mem fun {a b} ha hb hlt => ?_
    rw [hne a ha, hne b hb]
    exact hlt

/-- **頭でない entry を借りなければ、列は借りた順に並ぶ。** -/
theorem recencyOrder_step (hi : RecencyOrder h) (hhead : HitsHead h op)
    (hs : historyStep h op = some h') : RecencyOrder h' := by
  obtain ⟨w, hw, rfl⟩ := historyStep_eq_some.mp hs
  refine ⟨cacheWorld_step hi.world op hw, ?_, hi.record_le _⟩
  show w.lru.list.Pairwise fun a b => h.record _ b < h.record _ a
  have hnd := hi.world.cache.nodup
  cases hl : lruLent h.world op with
  | none => exact hi.sorted.sublist (sublist_of_not_lent hi.world hw hl)
  | some p =>
    cases lentBy_of_lent hi.world hw hl with
    | @hit c io fileName _ hpc hfind hlist =>
      -- 頭にある entry なので、列はそのままでよい
      obtain ⟨rest, hcons⟩ := List.head?_eq_some_iff.mp (hhead fileName p hpc hfind)
      rw [hcons] at hnd
      rw [hlist, hcons]
      exact hi.cons (List.nodup_cons.mp hnd).1 (hcons ▸ List.sublist_cons_self p rest)
    | found he hlist =>
      rw [hlist]
      exact hi.cons (fun hm => (hnd.mem_erase_iff.mp hm).1 rfl) List.erase_sublist
    | inserted hp hsplit hlist =>
      rw [hlist]
      refine hi.cons (fun hm => hp ?_) ?_
      · rw [hsplit]
        exact List.mem_append_left _ hm
      · rw [hsplit]
        exact List.sublist_append_left _ _

/-- **列が借りた順に並んでいれば、追い出すのは古く借りたものである。** -/
theorem RecencyOrder.evictsOldest (hi : RecencyOrder h) (op : LruOp) : EvictsOldest h op := by
  intro h' hs hins e he hgone k hk
  obtain ⟨w, hw, rfl⟩ := historyStep_eq_some.mp hs
  obtain ⟨c, io, p, rfl, hpc, hr⟩ := hins
  have hl : lruLent h.world (.run c io) = some p := by
    unfold lruLent
    simp only [hpc, hr]
  obtain ⟨s, hroom, hjoin⟩ : ∃ s, fileLruMakeRoom io.rb h.world.lru p = some s ∧
      fileLruBorrowJoin io.rb s p = some w.lru := by
    rcases fileLruBorrowInsert_cases hr with ⟨e, he, -⟩ | ⟨he, -⟩ | ⟨s, -, -, -, hroom, hjoin⟩
    · cases he
    · cases he
    · exact ⟨s, hroom, hjoin⟩
  obtain ⟨⟨es, hes⟩, -⟩ := fileLruMakeRoom_list hi.world.cache.nodup hroom
  have hlist : w.lru.list = p :: s.list := (fileLruBorrowJoin_sizes hjoin).1
  have hp : p ∉ h.world.lru.list := hi.world.cache.own_not p ⟨c, by rw [hpc]; rfl⟩
  show h.record (lruLent h.world (.run c io)) e < h.record (lruLent h.world (.run c io)) k
  have hep : e ≠ p := fun hep => hp (hep ▸ he)
  rw [hl, LruHistory.record_of_ne hep]
  have hgone : e ∉ p :: s.list := hlist ▸ hgone
  have hk : k ∈ p :: s.list := hlist ▸ hk
  have hevicted : e ∈ es := by
    rw [hes] at he
    exact (List.mem_append.mp he).resolve_left fun hm => hgone (List.mem_cons_of_mem p hm)
  rcases List.mem_cons.mp hk with rfl | hk
  · rw [LruHistory.record_self]
    exact Nat.lt_succ_of_le (hi.past e)
  · have hkne : k ≠ p := fun he => hp (by rw [hes, ← he]; exact List.mem_append_left _ hk)
    have hsorted := hi.sorted
    rw [hes] at hsorted
    rw [LruHistory.record_of_ne hkne]
    exact (List.pairwise_append.mp hsorted).2.2 k hk e hevicted

theorem recencyOrder_init : RecencyOrder .init where
  world := cacheWorld_init _ rfl
  sorted := List.Pairwise.nil
  past _ := le_rfl

/-- **頭でない entry を見つけると、列は借りた順でなくなる。** -/
theorem recencyOrder_breaks (hi : RecencyOrder h) (hbad : ¬ HitsHead h op) :
    ∃ h', historyStep h op = some h' ∧
      ¬ h'.world.lru.list.Pairwise fun a b => h'.last b < h'.last a := by
  cases op with
  | call c f => exact absurd trivial hbad
  | setup stat rootPath max => exact absurd trivial hbad
  | setBloom bf => exact absurd trivial hbad
  | run c io =>
    unfold HitsHead at hbad
    push Not at hbad
    obtain ⟨fileName, p, hpc, hfind, hhead⟩ := hbad
    have hl : lruLent h.world (.run c io) = some p := by
      unfold lruLent
      simp only [hpc, hfind]
    have hsame := fileLruBorrowFind_same h.world.lru fileName
    obtain ⟨w, hw, hlist⟩ : ∃ w, lruStep h.world (.run c io) = some w ∧
        w.lru.list = h.world.lru.list := by
      show ∃ w, lruRun h.world c io = some w ∧ w.lru.list = h.world.lru.list
      unfold lruRun
      simp only [hpc]
      rcases hr : fileLruBorrowFind h.world.lru fileName with ⟨r, lru⟩
      rw [hr] at hsame
      cases r <;> exact ⟨_, rfl, hsame.list⟩
    have hp : p ∈ h.world.lru.list := by
      unfold fileLruBorrowFind at hfind
      split at hfind
      · cases hfind
      split at hfind
      · next q hq =>
        cases hfind
        exact (hi.world.cache.mem_of_rbFind hq).1
      · cases hfind
    obtain ⟨a, rest, hcons⟩ := List.exists_cons_of_ne_nil (List.ne_nil_of_mem hp)
    have hap : a ≠ p := fun he => hhead (by rw [hcons, he]; rfl)
    rw [hcons] at hp
    have hrest : p ∈ rest := (List.mem_cons.mp hp).resolve_left hap.symm
    refine ⟨_, historyStep_eq_some.mpr ⟨w, hw, rfl⟩, fun hsorted => ?_⟩
    have hsorted : w.lru.list.Pairwise fun a b =>
        h.record (lruLent h.world (.run c io)) b < h.record (lruLent h.world (.run c io)) a := hsorted
    rw [hlist, hcons, hl] at hsorted
    have hlt := (List.pairwise_cons.mp hsorted).1 p hrest
    rw [LruHistory.record_self, LruHistory.record_of_ne hap] at hlt
    have hpast := hi.past a
    omega

end

/--
**列がいつも借りた順に並ぶのは、初めの探索で列の頭でない entry を見つけないとき、そのときに限る。**
-/
theorem file_lru_recency_iff (ops : List LruOp) :
    Throughout historyStep
        (fun h => h.world.lru.list.Pairwise fun a b => h.last b < h.last a) .init ops ↔
      Along historyStep HitsHead .init ops := by
  have hiff : Throughout historyStep
        (fun h => h.world.lru.list.Pairwise fun a b => h.last b < h.last a) .init ops ∧
      Along historyStep (fun _ _ => True) .init ops ↔ Along historyStep HitsHead .init ops :=
    throughout_and_along_iff (P := RecencyOrder)
      (fun h op h' hi _ hgood hs => recencyOrder_step hi hgood hs) (fun _ _ _ _ _ => trivial)
      (fun h op hi _ hbad _ => recencyOrder_breaks hi hbad) (fun h hi => hi.sorted)
      recencyOrder_init along_true
  exact ⟨fun h => hiff.mp ⟨h, along_true⟩, fun h => (hiff.mpr h).1⟩

/--
**初めの探索で列の頭でない entry を見つけない間、入れるために追い出した entry は、残る entry のどれよりも
前に借りたものである。**

呼び手は一人ずつでなくてもよく、全体の purge や `file_lru_setup` が間にあってもよい。
-/
theorem file_lru_evicts_oldest (ops : List LruOp) (h : Along historyStep HitsHead .init ops) :
    Along historyStep EvictsOldest .init ops := by
  suffices hrun : ∀ (ops : List LruOp) (h : LruHistory), RecencyOrder h →
      Along historyStep HitsHead h ops → Along historyStep EvictsOldest h ops from
    hrun ops .init recencyOrder_init h
  intro ops
  induction ops with
  | nil => exact fun _ _ _ => trivial
  | cons op ops ih =>
    rintro h hi ⟨hhead, hrest⟩
    exact ⟨hi.evictsOldest op, fun h' hs => ih h' (recencyOrder_step hi hhead hs) (hrest h' hs)⟩

/-! ## 例 -/

def returnOps (p : Nat) : List LruOp := [.call 0 (.giveBack p), .run 0 .sample]

/-- 5 byte の file を `a`・`b` と借りて返し、`name` をもう一度借りて返す。 -/
def hitAgainOps (name : List UInt8) (p : Nat) : List LruOp :=
  smallCacheOps ++ borrowOps [97] ++ returnOps 0 ++ borrowOps [98] ++ returnOps 1 ++
    [.call 0 (.borrow (.ofBytes name)), .run 0 .sample] ++ returnOps p

/-- `HitsHead` は、見つけたものを見れば確かめられる。 -/
def hitsHeadB (h : LruHistory) : LruOp → Bool
  | .run c _ =>
    match h.world.pc c with
    | .borrow fileName =>
      match (fileLruBorrowFind h.world.lru fileName).1 with
      | .hit p => h.world.lru.list.head? = some p
      | _ => true
    | _ => true
  | _ => true

theorem hitsHead_of_hitsHeadB {h : LruHistory} {op : LruOp} (hb : hitsHeadB h op = true) :
    HitsHead h op := by
  cases op with
  | run c io =>
    intro fileName p hpc hfind
    unfold hitsHeadB at hb
    simpa only [hpc, hfind, decide_eq_true_eq] using hb
  | call c f => trivial
  | setup stat rootPath max => trivial
  | setBloom bf => trivial

/-- 頭にある `b` を借りた後、`c` を入れるために追い出すのは `a` である。 -/
theorem file_lru_evicts_oldest_sample :
    Along historyStep EvictsOldest .init (hitAgainOps [98] 1 ++ borrowOps [99]) := by
  have hb : Along historyStep (fun h op => hitsHeadB h op = true) .init
      (hitAgainOps [98] 1 ++ borrowOps [99]) := by decide +kernel
  exact file_lru_evicts_oldest _ (hb.mono fun _ _ => hitsHead_of_hitsHeadB)

theorem insertsEntry_of_lent {w w' : LruWorld} {c p : Nat} {io : LruIo}
    (hw : CacheWorld LruPc.inserting w) (hpc : w.pc c = .insert p)
    (hl : lruLent w (.run c io) = some p) (hs : lruStep w (.run c io) = some w') :
    InsertsEntry w (.run c io) w' := by
  have hs : lruRun w c io = some w' := hs
  have hp := hw.cache.own_not p ⟨c, by rw [hpc]; rfl⟩
  unfold lruRun at hs
  unfold lruLent at hl
  simp only [hpc] at hs hl
  cases hr : fileLruBorrowInsert io.rb w.lru p with
  | none =>
    rw [hr] at hl
    cases hl
  | some r =>
    obtain ⟨r, lru⟩ := r
    rw [hr] at hs hl
    rcases fileLruBorrowInsert_cases hr with ⟨e, rfl, he, -⟩ | ⟨rfl, -⟩ | ⟨s, rfl, -⟩
    · cases hl
      exact absurd (hw.cache.mem_of_rbFind he).1 hp
    · cases hl
    · cases hs
      exact ⟨c, io, p, rfl, hpc, hr⟩

/-- **`a` は `b` より後に借りたが、`c` を入れるために追い出される。** -/
theorem file_lru_evicts_recent :
    ¬ ∀ ops : List LruOp, Along lruStep lruSequential .init ops →
      Along historyStep EvictsOldest .init ops := by
  intro hall
  have hseq : Along lruStep lruSequential .init (hitAgainOps [97] 0 ++ borrowOps [99]) :=
    along_sequential_of_single (fun _ _ => rfl) (by decide +kernel)
  have halong := hall _ hseq
  have hsplit : hitAgainOps [97] 0 ++ borrowOps [99]
      = (hitAgainOps [97] 0 ++ (borrowOps [99]).take 3) ++ [.run 0 .sample] := by
    rw [List.append_assoc]
    rfl
  rw [hsplit] at halong
  -- `c` を入れる直前の状態
  have hrun : (runFrom historyStep .init (hitAgainOps [97] 0 ++ (borrowOps [99]).take 3)).map
      (fun h => (h.world.pc 0, lruLent h.world (.run 0 .sample), h.world.lru.list)) =
        some (.insert 2, some 2, [1, 0]) := by decide +kernel
  have hlast : (runFrom historyStep .init
      ((hitAgainOps [97] 0 ++ (borrowOps [99]).take 3) ++ [.run 0 .sample])).map
      (fun h => (h.world.lru.list, h.last 0, h.last 1)) = some ([2, 1], 16, 12) := by
    decide +kernel
  obtain ⟨h, hh, hpair⟩ := Option.map_eq_some_iff.mp hrun
  obtain ⟨h', hh', hpair'⟩ := Option.map_eq_some_iff.mp hlast
  obtain ⟨hpc, hl, hlist⟩ : h.world.pc 0 = .insert 2 ∧ lruLent h.world (.run 0 .sample) = some 2 ∧
      h.world.lru.list = [1, 0] := by simpa using hpair
  obtain ⟨hlist', h0, h1⟩ : h'.world.lru.list = [2, 1] ∧ h'.last 0 = 16 ∧ h'.last 1 = 12 := by
    simpa using hpair'
  obtain ⟨t, ht, hlaststep⟩ := runFrom_append_eq_some.mp hh'
  rw [hh] at ht
  cases ht
  obtain ⟨u, hu, hnil⟩ := runFrom_cons_eq_some.mp hlaststep
  cases hnil
  obtain ⟨w, hw, hrec⟩ := historyStep_eq_some.mp hu
  have hworld : CacheWorld LruPc.inserting h.world :=
    runFrom_invariant' (P := fun h => CacheWorld LruPc.inserting h.world)
      (fun s op s' hs hstep => by
        obtain ⟨w, hw, rfl⟩ := historyStep_eq_some.mp hstep
        exact cacheWorld_step hs op hw) (cacheWorld_init _ rfl) hh
  have hins : InsertsEntry h.world (.run 0 .sample) h'.world := by
    rw [hrec]
    exact insertsEntry_of_lent hworld hpc hl hw
  have hbad := (halong.of_append hh).1 h' hu hins 0 (by rw [hlist]; decide) (by rw [hlist']; decide)
    1 (by rw [hlist']; decide)
  rw [h0, h1] at hbad
  exact absurd hbad (by decide)

end Esq
