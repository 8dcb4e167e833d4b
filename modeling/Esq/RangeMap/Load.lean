import Esq.Infra.Dll
import Esq.RangeMap.Basic

/-!
# 掃除と読み込み

`range_map_clean` と `range_map_load` の、番地の上での仕様。

掃除は `RM_NODE_DELETE` の node を all_list から抜いて解放し、残りの `next` を NULL にする
（`rangeMapClean_spec`）。読み込みは、同じ prefix の node を一本に繋いで先頭を tree に入れ、
次に各列の末尾を短い prefix の列へ繋ぐ（`rangeMapLoad_spec`）。

どちらも他の map の node に触れない。
-/

namespace Esq

open Infra

variable {st st' : RangeMaps} {i j : Fin 10} {p q n : Nat} {all ks rs : List Nat}

/-! ## flag -/

theorem hasFlag_or {f g flag : BitVec 32} (h : flag &&& g = 0) :
    hasFlag (f ||| g) flag = hasFlag f flag := by
  unfold hasFlag
  rw [BitVec.and_or_distrib_left, h]
  simp

theorem hasFlag_or_self {f flag : BitVec 32} (h : flag ≠ 0) : hasFlag (f ||| flag) flag = true := by
  have habs : flag &&& (f ||| flag) = flag := by grind
  unfold hasFlag
  rw [habs]
  simpa using h

theorem hasFlag_and_not {f g flag : BitVec 32} (h : flag &&& ~~~g = flag) :
    hasFlag (f &&& ~~~g) flag = hasFlag f flag := by
  unfold hasFlag
  rw [BitVec.and_comm f, ← BitVec.and_assoc, h]

/-! ## 欄の読み書き -/

def RangeNode.data (p : RangeNode) : RangeNode := { p with next := none, allNodeListNext := none }

theorem RangeNode.deleted_of_data {a b : RangeNode} (h : a.data = b.data) : a.deleted = b.deleted := by
  have : a.data.deleted = b.data.deleted := by rw [h]
  exact this

theorem RangeNode.hash_of_data {a b : RangeNode} (h : a.data = b.data) : a.hash = b.hash := by
  have : a.data.hash = b.data.hash := by rw [h]
  exact this

def RangeNode.key (n : RangeNode) : Nat × Int × List UInt8 := (n.ip, n.port, n.hash)

theorem RangeNode.key_of_data {a b : RangeNode} (h : a.data = b.data) : a.key = b.key := by
  have : a.data.key = b.data.key := by rw [h]
  exact this

namespace RangeMaps

theorem node_setNode_self (f : RangeNode → RangeNode) : (st.setNode p f).node p = f (st.node p) :=
  Function.update_self ..

theorem node_setNode_of_ne (f : RangeNode → RangeNode) (h : q ≠ p) :
    (st.setNode p f).node q = st.node q := Function.update_of_ne h _ _

theorem apply_setNode {α : Type} (g : RangeNode → α) (f : RangeNode → RangeNode)
    (h : ∀ n, g (f n) = g n) (q : Nat) : g ((st.setNode p f).node q) = g (st.node q) := by
  by_cases hq : q = p
  · subst hq
    rw [node_setNode_self, h]
  · rw [node_setNode_of_ne f hq]

@[simp] theorem next_setNext (q : Option Nat) :
    (st.setNext p q).next = Function.update st.next p q := by
  funext a
  by_cases ha : a = p
  · subst ha
    simp [next, setNext, setNode]
  · simp [next, setNext, setNode, ha]

@[simp] theorem allNext_setNext (q : Option Nat) : (st.setNext p q).allNext = st.allNext := by
  funext a
  exact apply_setNode RangeNode.allNodeListNext (fun n => { n with next := q }) (fun _ => rfl) a

@[simp] theorem data_setNext (q : Option Nat) (a : Nat) :
    ((st.setNext p q).node a).data = (st.node a).data :=
  apply_setNode RangeNode.data (fun n => { n with next := q }) (fun _ => rfl) a

theorem allNext_setAllNext (q : Option Nat) :
    (st.setNode p fun n => { n with allNodeListNext := q }).allNext
      = Function.update st.allNext p q := by
  funext a
  by_cases ha : a = p
  · subst ha
    simp [allNext, setNode]
  · simp [allNext, setNode, ha]

section Bypass

variable {pp m : Option Nat}

theorem allNext_bypassAllList :
    (st.bypassAllList i pp m).allNext = bypass st.allNext pp m := by
  cases pp with
  | none => rfl
  | some q => exact allNext_setAllNext m

theorem allList_bypassAllList :
    ((st.bypassAllList i pp m).slot i).allList = bypassEnd (st.slot i).allList pp m := by
  cases pp with
  | none => simp [bypassAllList, setSlot, bypassEnd]
  | some q => rfl

theorem apply_bypassAllList {α : Type} (g : RangeNode → α)
    (hg : ∀ n m, g { n with allNodeListNext := m } = g n) (a : Nat) :
    g ((st.bypassAllList i pp m).node a) = g (st.node a) := by
  cases pp with
  | none => rfl
  | some q => exact apply_setNode g (fun n => { n with allNodeListNext := m }) (fun n => hg n m) a

theorem node_bypassAllList_of_ne {a : Nat} (h : pp ≠ some a) :
    (st.bypassAllList i pp m).node a = st.node a := by
  cases pp with
  | none => rfl
  | some q =>
    refine Function.update_of_ne ?_ _ _
    rintro rfl
    exact h rfl

theorem frame_bypassAllList (st : RangeMaps) (i : Fin 10) (pp m : Option Nat) :
    (st.bypassAllList i pp m).live = st.live ∧
    (st.bypassAllList i pp m).mallocs = st.mallocs ∧
    (∀ j, j ≠ i → (st.bypassAllList i pp m).slot j = st.slot j) ∧
    ∀ a, { (st.bypassAllList i pp m).slot i with allList := a }
      = { st.slot i with allList := a } := by
  cases pp with
  | none =>
    refine ⟨rfl, rfl, fun j hj => Function.update_of_ne hj _ _, fun a => ?_⟩
    simp [bypassAllList, setSlot]
  | some q => exact ⟨rfl, rfl, fun _ _ => rfl, fun _ => rfl⟩

end Bypass

theorem hash_eq_of_data (h : ∀ p, (st'.node p).data = (st.node p).data) : st'.hash = st.hash :=
  funext fun p => RangeNode.hash_of_data (h p)

end RangeMaps

/-! ## 掃除 -/

/--
`ks` まで見終えて `rs` が残っている所から掃除した結果。

掃除の loop は、見終えて残った node の末尾を `pp` に持つ。
-/
structure CleanedFrom (st : RangeMaps) (i : Fin 10) (ks rs : List Nat) (st' : RangeMaps) :
    Prop where
  linked : Linked st'.allNext (st'.slot i).allList
    (ks ++ rs.filter fun p => !(st.node p).deleted)
  data : ∀ p, (st'.node p).data = (st.node p).data
  next : ∀ p, st'.next p = if p ∈ rs ∧ (st.node p).deleted = false then none else st.next p
  others : ∀ p, p ∉ ks → p ∉ rs → st'.node p = st.node p
  live : ∀ p, st'.live p = if p ∈ rs ∧ (st.node p).deleted = true then false else st.live p
  mallocs : st'.mallocs = st.mallocs
  slots : ∀ j, j ≠ i → st'.slot j = st.slot j
  slot : ∀ a, { st'.slot i with allList := a } = { st.slot i with allList := a }

theorem CleanedFrom.cons {st1 : RangeMaps} {ks' : List Nat}
    (h : CleanedFrom st1 i ks' rs st') (hdata : ∀ a, (st1.node a).data = (st.node a).data)
    (hks : ks' ++ (rs.filter fun a => !(st.node a).deleted)
      = ks ++ ((p :: rs).filter fun a => !(st.node a).deleted))
    (hp : p ∉ rs) (hnext : ∀ a, st1.next a
      = if a = p ∧ (st.node p).deleted = false then none else st.next a)
    (hothers : ∀ a, a ∉ ks → a ≠ p → a ∉ ks' ∧ st1.node a = st.node a)
    (hlive : ∀ a, st1.live a = if a = p ∧ (st.node p).deleted = true then false else st.live a)
    (hmallocs : st1.mallocs = st.mallocs) (hslots : ∀ j, j ≠ i → st1.slot j = st.slot j)
    (hslot : ∀ a, { st1.slot i with allList := a } = { st.slot i with allList := a }) :
    CleanedFrom st i ks (p :: rs) st' := by
  have hdel : ∀ a, (st1.node a).deleted = (st.node a).deleted :=
    fun a => RangeNode.deleted_of_data (hdata a)
  refine ⟨?_, fun a => (h.data a).trans (hdata a), fun a => ?_, fun a hk hr => ?_, fun a => ?_,
    h.mallocs.trans hmallocs, fun j hj => (h.slots j hj).trans (hslots j hj),
    fun a => (h.slot a).trans (hslot a)⟩
  · rw [← hks]
    have := h.linked
    simpa only [hdel] using this
  · rw [h.next a, hdel, hnext a]
    by_cases ha : a = p
    · subst ha
      simp [hp]
    · simp [ha]
  · rw [List.mem_cons, not_or] at hr
    obtain ⟨hk', hn⟩ := hothers a hk hr.1
    exact (h.others a hk' hr.2).trans hn
  · rw [h.live a, hdel, hlive a]
    by_cases ha : a = p
    · subst ha
      simp [hp]
    · simp [ha]

/-- **掃除の loop は、`RM_NODE_DELETE` の node だけを抜いて解放する。** -/
theorem rangeMapCleanLoop_spec : ∀ (rs ks : List Nat) (fuel : Nat) (st : RangeMaps),
    Linked st.allNext (st.slot i).allList (ks ++ rs) → rs.length ≤ fuel →
    CleanedFrom st i ks rs (rangeMapCleanLoop st i fuel ks.getLast? rs.head?)
  | [], ks, fuel, st, hl, _ => by
    have hstop : rangeMapCleanLoop st i fuel ks.getLast? ([] : List Nat).head? = st := by
      cases fuel <;> rfl
    rw [hstop]
    refine ⟨hl, fun _ => rfl, fun _ => ?_, fun _ _ _ => rfl, fun _ => ?_, rfl, fun _ _ => rfl,
      fun _ => rfl⟩
    · simp
    · simp
  | p :: rs, ks, 0, st, hl, hn => by simp at hn
  | p :: rs, ks, fuel + 1, st, hl, hn => by
    have hnext : st.allNext p = rs.head? := hl.next_eq
    have hnd := hl.nodup
    have hp : p ∉ rs := (List.nodup_cons.mp (List.nodup_append.mp hnd).2.1).1
    have hn' : rs.length ≤ fuel := by simpa using hn
    simp only [List.head?_cons, rangeMapCleanLoop, hnext]
    split
    · next hdel =>
      -- 手前の node か head を、次の node に向け直す
      have hby := hl.bypass
      obtain ⟨hlive, hmal, hslots, hslot⟩ :=
        RangeMaps.frame_bypassAllList st i ks.getLast? rs.head?
      refine CleanedFrom.cons (rangeMapCleanLoop_spec rs ks fuel
        ((st.bypassAllList i ks.getLast? rs.head?).free p) ?_ hn')
        (RangeMaps.apply_bypassAllList RangeNode.data fun _ _ => rfl) (by simp [hdel]) hp
        (fun a => ?_) (fun a ha hap => ⟨ha, ?_⟩) (fun a => ?_) hmal hslots hslot
      · show Linked (st.bypassAllList i ks.getLast? rs.head?).allNext
          ((st.bypassAllList i ks.getLast? rs.head?).slot i).allList (ks ++ rs)
        rw [RangeMaps.allNext_bypassAllList, RangeMaps.allList_bypassAllList]
        exact hby
      · rw [if_neg (by simp [hdel])]
        exact RangeMaps.apply_bypassAllList RangeNode.next (fun _ _ => rfl) a
      · exact RangeMaps.node_bypassAllList_of_ne fun he => ha (List.mem_of_getLast? he)
      · show Function.update (st.bypassAllList i ks.getLast? rs.head?).live p false a = _
        rw [hlive]
        by_cases ha : a = p
        · subst ha
          simp [hdel]
        · simp [ha]
    · next hdel =>
      rw [Bool.not_eq_true] at hdel
      refine CleanedFrom.cons
        (by
          have := rangeMapCleanLoop_spec rs (ks ++ [p]) fuel (st.setNext p none)
            (by
              rw [RangeMaps.allNext_setNext, List.append_assoc]
              exact hl) hn'
          rw [List.getLast?_concat] at this
          exact this)
        (fun a => RangeMaps.data_setNext _ a) (by simp [hdel]) hp (fun a => ?_) (fun a ha hap => ?_)
        (fun a => by simp [hdel, RangeMaps.setNext, RangeMaps.setNode]) rfl (fun _ _ => rfl) fun _ => rfl
      · rw [RangeMaps.next_setNext]
        by_cases ha : a = p
        · subst ha
          simp [hdel]
        · simp [ha]
      · exact ⟨by simp [ha, hap], RangeMaps.node_setNode_of_ne _ hap⟩

theorem rangeMapClean_spec (hl : Linked st.allNext (st.slot i).allList all)
    (hn : all.length ≤ st.mallocs) :
    CleanedFrom (st.setSlot i fun m => { m with rbByLength := fun _ => [] }) i [] all
      (rangeMapClean st i) := by
  have hslot : ((st.setSlot i fun m => { m with rbByLength := fun _ => [] }).slot i).allList
      = (st.slot i).allList := by simp [RangeMaps.setSlot]
  have := rangeMapCleanLoop_spec (i := i) all [] st.mallocs
    (st.setSlot i fun m => { m with rbByLength := fun _ => [] }) (by rw [hslot]; exact hl) hn
  rw [hl.head_eq] at hslot
  show CleanedFrom _ i [] all (rangeMapCleanLoop
    (st.setSlot i fun m => { m with rbByLength := fun _ => [] }) i st.mallocs none
    ((st.setSlot i fun m => { m with rbByLength := fun _ => [] }).slot i).allList)
  rw [hslot]
  exact this

/-! ## tree -/

theorem mem_rbInsert {hash : Nat → List UInt8} {t : List Nat} :
    n ∈ rbInsert hash p t ↔ n = p ∨ n ∈ t := by
  induction t with
  | nil => simp [rbInsert]
  | cons a t ih =>
    rw [rbInsert]
    split
    · rw [List.mem_cons, ih, List.mem_cons]
      tauto
    · rw [List.mem_cons]

theorem nodup_rbInsert {hash : Nat → List UInt8} {t : List Nat} (ht : t.Nodup) (hp : p ∉ t) :
    (rbInsert hash p t).Nodup := by
  induction t with
  | nil => simp [rbInsert]
  | cons a t ih =>
    rw [List.nodup_cons] at ht
    rw [List.mem_cons, not_or] at hp
    rw [rbInsert]
    split
    · refine List.nodup_cons.mpr ⟨fun hm => ?_, ih ht.2 hp.2⟩
      rcases mem_rbInsert.mp hm with he | hm
      · exact hp.1 he.symm
      · exact ht.1 hm
    · exact List.nodup_cons.mpr ⟨by simp [hp.1, hp.2], List.nodup_cons.mpr ht⟩

theorem find_rbInsert {hash : Nat → List UInt8} {t : List Nat} {k : List UInt8}
    (ht : ∀ a ∈ t, hash a ≠ hash p) :
    (rbInsert hash p t).find? (fun a => hash a = k)
      = if k = hash p then some p else t.find? fun a => hash a = k := by
  induction t with
  | nil =>
    by_cases hk : k = hash p
    · subst hk
      simp [rbInsert]
    · have hk' : ¬ hash p = k := fun h => hk h.symm
      simp [rbInsert, hk, hk']
  | cons a t ih =>
    have ha : hash a ≠ hash p := ht a List.mem_cons_self
    have ih := ih fun b hb => ht b (List.mem_cons_of_mem a hb)
    rw [rbInsert]
    by_cases hk : k = hash p
    · subst hk
      split
      · simp [ha, ih]
      · simp
    · have hk' : ¬ hash p = k := fun h => hk h.symm
      split
      · simp only [List.find?_cons, ih, hk, if_false]
      · simp [List.find?_cons, hk']

theorem rbFind_congr (hhash : st'.hash = st.hash)
    (hrb : (st'.slot i).rbByLength = (st.slot i).rbByLength) : rbFind st' i = rbFind st i := by
  funext k
  unfold rbFind
  rw [hhash, hrb]

/-! ## 同じ prefix の列 -/

/-- 読み込みが変えないもの。`xs` の `next` と、tree と `longest` だけが変わる。 -/
structure LoadFrame (st : RangeMaps) (i : Fin 10) (xs : List Nat) (st' : RangeMaps) : Prop where
  data : ∀ p, (st'.node p).data = (st.node p).data
  allNext : st'.allNext = st.allNext
  next : ∀ p, p ∉ xs → st'.next p = st.next p
  live : st'.live = st.live
  mallocs : st'.mallocs = st.mallocs
  slots : ∀ j, j ≠ i → st'.slot j = st.slot j
  name : (st'.slot i).name = (st.slot i).name
  allList : (st'.slot i).allList = (st.slot i).allList

theorem LoadFrame.refl : LoadFrame st i all st :=
  ⟨fun _ => rfl, rfl, fun _ _ => rfl, rfl, rfl, fun _ _ => rfl, rfl, rfl⟩

theorem LoadFrame.trans {st2 : RangeMaps} (h : LoadFrame st i all st')
    (h' : LoadFrame st' i all st2) : LoadFrame st i all st2 where
  data p := (h'.data p).trans (h.data p)
  allNext := h'.allNext.trans h.allNext
  next p hp := (h'.next p hp).trans (h.next p hp)
  live := h'.live.trans h.live
  mallocs := h'.mallocs.trans h.mallocs
  slots j hj := (h'.slots j hj).trans (h.slots j hj)
  name := h'.name.trans h.name
  allList := h'.allList.trans h.allList

theorem LoadFrame.hash (h : LoadFrame st i all st') : st'.hash = st.hash :=
  RangeMaps.hash_eq_of_data h.data

theorem LoadFrame.setNext {m : Option Nat} (hp : p ∈ all) :
    LoadFrame st i all (st.setNext p m) where
  data := RangeMaps.data_setNext m
  allNext := RangeMaps.allNext_setNext m
  next a ha := by
    rw [RangeMaps.next_setNext, Function.update_of_ne]
    rintro rfl
    exact ha hp
  live := rfl
  mallocs := rfl
  slots _ _ := rfl
  name := rfl
  allList := rfl

structure Loading (st : RangeMaps) (i : Fin 10) (xs : List Nat) : Prop where
  index : GroupIndex st.hash st.next (rbFind st i) xs
  nodup : ∀ l, ((st.slot i).rbByLength l).Nodup
  mem : ∀ l n, n ∈ (st.slot i).rbByLength l →
    n ∈ xs ∧ (st.hash n).length = l ∧ rbFind st i (st.hash n) = some n

theorem seekLast_of_linked {next : Nat → Option Nat} {s t : Nat} {ys : List Nat} {m : Nat}
    (h : Linked next (some s) (ys ++ [t])) (hm : ys.length + 1 ≤ m) : seekLast next m s = t :=
  seekLast_eq ys m s h (Nat.le_of_succ_le hm)

theorem length_group_le {hash : Nat → List UInt8} {k : List UInt8} :
    (group hash all k).length ≤ all.length := List.length_filter_le _ _

theorem exists_group_last {hash : Nat → List UInt8} {k : List UInt8}
    (h : group hash all k ≠ []) : ∃ ys t, group hash all k = ys ++ [t] :=
  ⟨_, _, (List.dropLast_append_getLast h).symm⟩

/-- **一つの node を読み込むと、その prefix の列の末尾に加わる。** -/
theorem Loading.loadNode (h : Loading st i all) (hp : p ∉ all) (hnext : st.next p = none)
    (hn : all.length ≤ st.mallocs) : Loading (rangeMapLoadNode st i p) i (all ++ [p]) ∧
      LoadFrame st i all (rangeMapLoadNode st i p) := by
  unfold rangeMapLoadNode
  cases hf : rbFind st i (st.hash p) with
  | some s =>
    have hhead : (group st.hash all (st.hash p)).head? = some s := by
      rw [← h.index.find_eq, hf]
    have hne : group st.hash all (st.hash p) ≠ [] := by
      intro he
      rw [he] at hhead
      cases hhead
    obtain ⟨ys, t, hg⟩ := exists_group_last hne
    have hlink := h.index.linked (st.hash p)
    have hlen : (group st.hash all (st.hash p)).length ≤ all.length := length_group_le
    rw [hf, hg] at hlink
    rw [hg, List.length_append, List.length_singleton] at hlen
    have hlast : seekLast st.next st.mallocs s = t := seekLast_of_linked hlink (hlen.trans hn)
    have ht : t ∈ all := (mem_group.mp (hg ▸ List.mem_append_right ys List.mem_cons_self)).1
    have hframe : LoadFrame st i all (st.setNext t (some p)) := .setNext ht
    have hfind : rbFind (st.setNext t (some p)) i = rbFind st i := rbFind_congr hframe.hash rfl
    simp only [hlast]
    refine ⟨⟨?_, h.nodup, fun l a ha => ?_⟩, hframe⟩
    · rw [hframe.hash, RangeMaps.next_setNext, hfind]
      exact h.index.append hp hnext hg
    · obtain ⟨hm, hl, hff⟩ := h.mem l a ha
      rw [hframe.hash, hfind]
      exact ⟨List.mem_append_left _ hm, hl, hff⟩
  | none =>
    have hg : group st.hash all (st.hash p) = [] := by
      rw [← List.head?_eq_none_iff, ← h.index.find_eq, hf]
    have hfree : ∀ a ∈ (st.slot i).rbByLength (st.hash p).length, st.hash a ≠ st.hash p := by
      intro a ha he
      have := List.find?_eq_none.mp hf a ha
      simp [he] at this
    have hpt : ∀ l, p ∉ (st.slot i).rbByLength l := fun l hm => hp (h.mem l p hm).1
    generalize hst : st.setSlot i _ = st1
    have hslot : (st1.slot i).rbByLength = Function.update (st.slot i).rbByLength
        (st.hash p).length (rbInsert st.hash p ((st.slot i).rbByLength (st.hash p).length)) := by
      rw [← hst]
      simp [RangeMaps.setSlot]
    have hhash : st1.hash = st.hash := by rw [← hst]; rfl
    have hfind : rbFind st1 i = Function.update (rbFind st i) (st.hash p) (some p) := by
      funext k
      unfold rbFind
      rw [hslot, hhash]
      by_cases hl : k.length = (st.hash p).length
      · rw [hl, Function.update_self, find_rbInsert hfree]
        by_cases hk : k = st.hash p
        · subst hk
          rw [if_pos rfl, Function.update_self]
        · rw [if_neg hk, Function.update_of_ne hk, hl]
      · have hk : k ≠ st.hash p := fun he => hl (he ▸ rfl)
        rw [Function.update_of_ne hl, Function.update_of_ne hk]
    refine ⟨⟨?_, fun l => ?_, fun l a ha => ?_⟩, ?_⟩
    · rw [hhash, hfind, show st1.next = st.next by rw [← hst]; rfl]
      exact h.index.insert hnext hg
    · rw [hslot]
      by_cases hl : l = (st.hash p).length
      · subst hl
        rw [Function.update_self]
        exact nodup_rbInsert (h.nodup _) (hpt _)
      · rw [Function.update_of_ne hl]
        exact h.nodup l
    · rw [hslot] at ha
      rw [hhash, hfind]
      -- 新しい先頭か、前からの先頭か
      have hcase : (a = p ∧ l = (st.hash p).length) ∨ a ∈ (st.slot i).rbByLength l := by
        by_cases hl : l = (st.hash p).length
        · subst hl
          rw [Function.update_self] at ha
          rcases mem_rbInsert.mp ha with he | hm
          · exact Or.inl ⟨he, rfl⟩
          · exact Or.inr hm
        · rw [Function.update_of_ne hl] at ha
          exact Or.inr ha
      rcases hcase with ⟨rfl, rfl⟩ | hm
      · exact ⟨List.mem_append_right _ List.mem_cons_self, rfl, Function.update_self ..⟩
      · obtain ⟨hx, hl, hff⟩ := h.mem l a hm
        refine ⟨List.mem_append_left _ hx, hl, ?_⟩
        rw [Function.update_of_ne, hff]
        intro he
        rw [he, hf] at hff
        cases hff
    · subst hst
      refine ⟨fun _ => rfl, rfl, fun _ _ => rfl, rfl, rfl, fun j hj => Function.update_of_ne hj _ _,
        ?_, ?_⟩
      · simp [RangeMaps.setSlot]
      · simp [RangeMaps.setSlot]

theorem LoadFrame.mono (h : LoadFrame st i ks st') (hs : ∀ p ∈ ks, p ∈ all) :
    LoadFrame st i all st' :=
  ⟨h.data, h.allNext, fun p hp => h.next p fun hk => hp (hs p hk), h.live, h.mallocs, h.slots, h.name,
    h.allList⟩

theorem Loading.setNext {m : Option Nat} (h : Loading st i all) (hp : p ∉ all) :
    Loading (st.setNext p m) i all := by
  have hhash : (st.setNext p m).hash = st.hash :=
    RangeMaps.hash_eq_of_data (RangeMaps.data_setNext m)
  have hfind : rbFind (st.setNext p m) i = rbFind st i := rbFind_congr hhash rfl
  refine ⟨⟨fun k => ?_, fun k => ?_⟩, h.nodup, fun l a ha => ?_⟩
  · rw [hfind, hhash]
    exact h.index.find_eq k
  · rw [hfind, hhash, RangeMaps.next_setNext]
    refine (h.index.linked k).update_of_notMem ?_ m
    exact fun hm => hp (mem_group.mp hm).1
  · rw [hhash, hfind]
    exact h.mem l a ha

theorem Loading.loadNodes : ∀ (rs : List Nat) {st : RangeMaps} {ks : List Nat},
    Loading st i ks → (ks ++ rs).Nodup → (ks ++ rs).length ≤ st.mallocs →
    Loading (rs.foldl (fun st p => rangeMapLoadNode (st.setNext p none) i p) st) i (ks ++ rs) ∧
      LoadFrame st i (ks ++ rs)
        (rs.foldl (fun st p => rangeMapLoadNode (st.setNext p none) i p) st)
  | [], st, ks, h, _, _ => by
    rw [List.append_nil]
    exact ⟨h, .refl⟩
  | p :: rs, st, ks, h, hnd, hn => by
    have hp : p ∉ ks := fun hm => (List.nodup_append.mp hnd).2.2 p hm p List.mem_cons_self rfl
    rw [List.append_cons] at hnd hn ⊢
    have hlen : ks.length ≤ st.mallocs := by
      simp only [List.length_append, List.length_cons, List.length_nil] at hn
      omega
    have hnone : (st.setNext p none).next p = none := by
      rw [RangeMaps.next_setNext, Function.update_self]
    obtain ⟨h1, hf1⟩ := (h.setNext (m := none) hp).loadNode hp hnone hlen
    have hf0 : LoadFrame st i (ks ++ [p] ++ rs) (st.setNext p none) := .setNext (by simp)
    have hf : LoadFrame st i (ks ++ [p] ++ rs) (rangeMapLoadNode (st.setNext p none) i p) :=
      hf0.trans (hf1.mono fun a ha => by simp [ha])
    obtain ⟨h2, hf2⟩ := Loading.loadNodes rs h1 hnd (by rw [hf.mallocs]; exact hn)
    exact ⟨h2, hf.trans hf2⟩

/-! ## 短い prefix の列へ -/

def Linking (st : RangeMaps) (i : Fin 10) (all : List Nat) (hs : List (Nat × Nat)) : Prop :=
  Threaded st.hash st.next (rbFind st i) all fun k => ∃ h ∈ hs, st.hash h.2 = k

/-- **一つの列を、一つ短い方へ探して見つかった列に繋ぐ。** -/
theorem Linking.linkShortMatch {hs : List (Nat × Nat)} {l : Nat} (h : Linking st i all hs)
    (hn : all.length ≤ st.mallocs) (hl : (st.hash n).length = l)
    (hf : rbFind st i (st.hash n) = some n) (hnew : ∀ g ∈ hs, st.hash g.2 ≠ st.hash n) :
    Linking (rangeMapLinkShortMatch st i (l - 1 : Int) n) i all (hs ++ [(l, n)]) ∧
      LoadFrame st i all (rangeMapLinkShortMatch st i (l - 1 : Int) n) ∧
      (rangeMapLinkShortMatch st i (l - 1 : Int) n).slot = st.slot := by
  have hundone : ¬ ∃ g ∈ hs, st.hash g.2 = st.hash n := by
    rintro ⟨g, hg, he⟩
    exact hnew g hg he
  have hne : group st.hash all (st.hash n) ≠ [] := by
    intro he
    have := Threaded.find_eq h (st.hash n)
    rw [hf, he] at this
    cases this
  obtain ⟨ys, t, hg⟩ := exists_group_last hne
  have hlink := Threaded.linked h _ hundone
  have hlen : (group st.hash all (st.hash n)).length ≤ all.length := length_group_le
  rw [hf, hg] at hlink
  rw [hg, List.length_append, List.length_singleton] at hlen
  have hlast : seekLast st.next st.mallocs n = t := seekLast_of_linked hlink (hlen.trans hn)
  have ht : t ∈ all := (mem_group.mp (hg ▸ List.mem_append_right ys List.mem_cons_self)).1
  have htnone : st.next t = ([] : List Nat).head? := hlink.next_eq
  -- どの枝でも、書き込むのは末尾の `next` に `shorter` である
  have hresult : rangeMapLinkShortMatch st i (l - 1 : Int) n = st ∧
        shorter (rbFind st i) (st.hash n) = none ∨
      rangeMapLinkShortMatch st i (l - 1 : Int) n
        = st.setNext t (shorter (rbFind st i) (st.hash n)) := by
    unfold rangeMapLinkShortMatch shorter
    rw [hl]
    cases l with
    | zero => exact Or.inl ⟨rfl, rfl⟩
    | succ m =>
      have hm : ((m + 1 : Nat) - 1 : Int) = (m : Int) := by omega
      rw [hm, if_neg (by omega), Int.toNat_natCast]
      simp only
      cases hs : search (rbFind st i) (st.hash n) m with
      | none => exact Or.inl ⟨rfl, rfl⟩
      | some q =>
        refine Or.inr ?_
        simp only [hlast]
  have hthread := Threaded.link h hundone hg
  have hdone : ∀ k, ((∃ g ∈ hs, st.hash g.2 = k) ∨ k = st.hash n) ↔
      ∃ g ∈ hs ++ [(l, n)], st.hash g.2 = k := by
    intro k
    constructor
    · rintro (⟨g, hg, he⟩ | rfl)
      · exact ⟨g, List.mem_append_left _ hg, he⟩
      · exact ⟨(l, n), List.mem_append_right _ List.mem_cons_self, rfl⟩
    · rintro ⟨g, hg, he⟩
      rcases List.mem_append.mp hg with hg | hg
      · exact Or.inl ⟨g, hg, he⟩
      · rw [List.mem_singleton.mp hg] at he
        exact Or.inr he.symm
  have hthread := hthread.mono fun k _ => hdone k
  rcases hresult with ⟨he, hnone⟩ | he
  · rw [he]
    refine ⟨?_, .refl, rfl⟩
    have hsame : Function.update st.next t none = st.next := by
      rw [← List.head?_nil, ← htnone]
      exact Function.update_eq_self ..
    rw [hnone, hsame] at hthread
    exact hthread
  · rw [he]
    have hframe : LoadFrame st i all (st.setNext t (shorter (rbFind st i) (st.hash n))) :=
      .setNext ht
    refine ⟨?_, hframe, rfl⟩
    have hfind : rbFind (st.setNext t (shorter (rbFind st i) (st.hash n))) i = rbFind st i :=
      rbFind_congr hframe.hash rfl
    unfold Linking
    rw [hframe.hash, hfind, RangeMaps.next_setNext]
    exact hthread

theorem Linking.linkAll : ∀ (gs : List (Nat × Nat)) {st : RangeMaps} {hs : List (Nat × Nat)},
    Linking st i all hs → all.length ≤ st.mallocs →
    (∀ g ∈ gs, (st.hash g.2).length = g.1 ∧ rbFind st i (st.hash g.2) = some g.2) →
    ((hs ++ gs).map fun g => st.hash g.2).Nodup →
    Linking (gs.foldl (fun st h => rangeMapLinkShortMatch st i (h.1 - 1 : Int) h.2) st) i all
        (hs ++ gs) ∧
      LoadFrame st i all
        (gs.foldl (fun st h => rangeMapLinkShortMatch st i (h.1 - 1 : Int) h.2) st) ∧
      (gs.foldl (fun st h => rangeMapLinkShortMatch st i (h.1 - 1 : Int) h.2) st).slot = st.slot
  | [], st, hs, h, _, _, _ => by
    rw [List.append_nil]
    exact ⟨h, .refl, rfl⟩
  | (l, n) :: gs, st, hs, h, hn, hgs, hnd => by
    obtain ⟨hl, hf⟩ := hgs (l, n) List.mem_cons_self
    have hnew : ∀ g ∈ hs, st.hash g.2 ≠ st.hash n := by
      intro g hg he
      rw [List.map_append, List.map_cons] at hnd
      exact (List.nodup_append.mp hnd).2.2 _ (List.mem_map_of_mem hg) _ List.mem_cons_self he
    obtain ⟨h1, hf1, hs1⟩ := h.linkShortMatch hn hl hf hnew
    have hfind : rbFind (rangeMapLinkShortMatch st i (l - 1 : Int) n) i = rbFind st i :=
      rbFind_congr hf1.hash (by rw [hs1])
    rw [List.append_cons] at hnd ⊢
    obtain ⟨h2, hf2, hs2⟩ := Linking.linkAll gs h1 (by rw [hf1.mallocs]; exact hn)
      (fun g hg => by
        rw [hf1.hash, hfind]
        exact hgs g (List.mem_cons_of_mem _ hg))
      (by rw [hf1.hash]; exact hnd)
    exact ⟨h2, hf1.trans hf2, hs2.trans hs1⟩

/-! ## `longest` -/

theorem mem_rangeMapHeads {m : RangeMap} {l : Nat} :
    (l, n) ∈ rangeMapHeads m ↔ l < hashValueLength ∧ n ∈ m.rbByLength l := by
  simp only [rangeMapHeads, List.mem_flatMap, List.mem_reverse, List.mem_range, List.mem_map,
    Prod.mk.injEq]
  constructor
  · rintro ⟨a, ha, b, hb, rfl, rfl⟩
    exact ⟨ha, hb⟩
  · rintro ⟨hl, hn⟩
    exact ⟨l, hl, n, hn, rfl, rfl⟩

theorem foldl_longest_of_ne_zero {a : Nat} (ha : a ≠ 0) : ∀ hs : List (Nat × Nat),
    hs.foldl (fun longest h => if longest = 0 then h.1 else longest) a = a
  | [] => rfl
  | g :: hs => by rw [List.foldl_cons, if_neg ha, foldl_longest_of_ne_zero ha hs]

theorem rangeMapLongest_spec : ∀ (hs : List (Nat × Nat)), hs.Pairwise (fun g h => h.1 ≤ g.1) →
    (∀ h ∈ hs, h.1 ≤ rangeMapLongest hs) ∧
      (rangeMapLongest hs = 0 ∨ ∃ h ∈ hs, rangeMapLongest hs = h.1)
  | [], _ => ⟨by simp, Or.inl rfl⟩
  | g :: hs, hp => by
    obtain ⟨hg, hp⟩ := List.pairwise_cons.mp hp
    by_cases h0 : g.1 = 0
    · have hsame : rangeMapLongest (g :: hs) = rangeMapLongest hs := by
        rw [rangeMapLongest, List.foldl_cons, if_pos rfl, h0]
        rfl
      obtain ⟨h1, h2⟩ := rangeMapLongest_spec hs hp
      rw [hsame]
      refine ⟨fun h hh => ?_, ?_⟩
      · rcases List.mem_cons.mp hh with rfl | hh
        · omega
        · exact h1 h hh
      · rcases h2 with h2 | ⟨h, hh, h2⟩
        · exact Or.inl h2
        · exact Or.inr ⟨h, List.mem_cons_of_mem g hh, h2⟩
    · have hsame : rangeMapLongest (g :: hs) = g.1 := by
        rw [rangeMapLongest, List.foldl_cons, if_pos rfl]
        exact foldl_longest_of_ne_zero h0 hs
      rw [hsame]
      refine ⟨fun h hh => ?_, Or.inr ⟨g, List.mem_cons_self, rfl⟩⟩
      rcases List.mem_cons.mp hh with rfl | hh
      · exact le_rfl
      · exact hg h hh

theorem rangeMapHeads_pairwise (m : RangeMap) :
    (rangeMapHeads m).Pairwise fun g h => h.1 ≤ g.1 := by
  unfold rangeMapHeads
  rw [List.pairwise_flatMap]
  refine ⟨fun l _ => ?_, ?_⟩
  · rw [List.pairwise_map]
    exact List.pairwise_of_forall fun _ _ => le_rfl
  · rw [List.pairwise_reverse]
    refine List.Pairwise.imp ?_ List.pairwise_lt_range
    intro a b hab x hx y hy
    obtain ⟨-, -, rfl⟩ := List.mem_map.mp hx
    obtain ⟨-, -, rfl⟩ := List.mem_map.mp hy
    exact hab.le

theorem Loading.heads_nodup (h : Loading st i all) :
    ((rangeMapHeads (st.slot i)).map fun g => st.hash g.2).Nodup := by
  unfold rangeMapHeads
  rw [List.map_flatMap, List.nodup_flatMap]
  refine ⟨fun l _ => ?_, ?_⟩
  · rw [List.map_map]
    refine (h.nodup l).map_on fun a ha b hb he => ?_
    have ha' := (h.mem l a ha).2.2
    have hb' := (h.mem l b hb).2.2
    have he : st.hash a = st.hash b := he
    rw [he, hb'] at ha'
    exact (Option.some.inj ha').symm
  · refine List.Pairwise.imp ?_ (List.nodup_reverse.mpr List.nodup_range)
    intro a b hab k hka hkb
    simp only [List.map_map, List.mem_map, Function.comp] at hka hkb
    obtain ⟨x, hx, rfl⟩ := hka
    obtain ⟨y, hy, he⟩ := hkb
    have hxl := (h.mem a x hx).2.1
    have hyl := (h.mem b y hy).2.1
    rw [he] at hyl
    exact hab (hxl.symm.trans hyl)

theorem Loading.exists_head (h : Loading st i all) (hp : p ∈ all) :
    ∃ n, n ∈ (st.slot i).rbByLength (st.hash p).length ∧ st.hash n = st.hash p := by
  cases hf : rbFind st i (st.hash p) with
  | some n =>
    refine ⟨n, List.mem_of_find?_eq_some hf, ?_⟩
    simpa using List.find?_some hf
  | none =>
    have hnil := h.index.find_eq (st.hash p)
    rw [hf] at hnil
    have hmem : p ∈ group st.hash all (st.hash p) := mem_group.mpr ⟨hp, rfl⟩
    rw [List.head?_eq_none_iff.mp hnil.symm] at hmem
    cases hmem

/-! ## 読み込みの仕様 -/

structure Loaded (st : RangeMaps) (i : Fin 10) (all : List Nat) : Prop where
  threaded : Threaded st.hash st.next (rbFind st i) all fun _ => True
  tree : ∀ l, ∀ n ∈ (st.slot i).rbByLength l, n ∈ all
  longest : ∀ p ∈ all, (st.hash p).length ≤ (st.slot i).longest
  longest_lt : (st.slot i).longest < hashValueLength

theorem rangeMapLoad_spec (hl : Linked st.allNext (st.slot i).allList all)
    (hn : all.length ≤ st.mallocs) (hrb : (st.slot i).rbByLength = fun _ => [])
    (hhash : ∀ p ∈ all, (st.hash p).length < hashValueLength) :
    Loaded (rangeMapLoad st i) i all ∧ LoadFrame st i all (rangeMapLoad st i) := by
  have hempty : Loading st i [] := by
    have hfind : rbFind st i = fun _ => none := by
      funext k
      unfold rbFind
      rw [hrb]
      rfl
    refine ⟨?_, fun l => ?_, fun l a ha => ?_⟩
    · rw [hfind]
      exact groupIndex_nil
    · rw [hrb]
      exact List.nodup_nil
    · rw [hrb] at ha
      cases ha
  obtain ⟨hload, hframe⟩ := hempty.loadNodes all hl.nodup hn
  unfold rangeMapLoad
  rw [RangeMaps.allNodes, hl.walk_eq hn]
  rw [List.nil_append] at hload hframe
  generalize all.foldl (fun st p => rangeMapLoadNode (st.setNext p none) i p) st = st1 at hload hframe
  have hheads : ∀ g ∈ rangeMapHeads (st1.slot i),
      (st1.hash g.2).length = g.1 ∧ rbFind st1 i (st1.hash g.2) = some g.2 := by
    rintro ⟨l, n⟩ hg
    exact (hload.mem l n (mem_rangeMapHeads.mp hg).2).2
  have hstart : Linking st1 i all [] :=
    hload.index.threaded.mono fun k _ => by simp
  obtain ⟨hlink, hframe2, hslot⟩ := hstart.linkAll (rangeMapHeads (st1.slot i))
    (by rw [hframe.mallocs]; exact hn) hheads hload.heads_nodup
  unfold rangeMapBuildCrossDepthReference
  generalize hst2 : (rangeMapHeads (st1.slot i)).foldl
    (fun st h => rangeMapLinkShortMatch st i (h.1 - 1 : Int) h.2) st1 = st2 at hlink hframe2 hslot
  simp only [hst2]
  have hrb2 : ∀ m, ((st2.setSlot i fun s => { s with longest := m }).slot i).rbByLength
      = (st1.slot i).rbByLength := by
    intro m
    simp [RangeMaps.setSlot, hslot]
  have hlen : ((st2.setSlot i fun s => { s with
      longest := rangeMapLongest (rangeMapHeads (st1.slot i)) }).slot i).longest
      = rangeMapLongest (rangeMapHeads (st1.slot i)) := by simp [RangeMaps.setSlot]
  have hfind : ∀ m, rbFind (st2.setSlot i fun s => { s with longest := m }) i = rbFind st2 i := by
    intro m
    refine rbFind_congr rfl ?_
    rw [hrb2, hslot]
  obtain ⟨hlong, hlong'⟩ := rangeMapLongest_spec _ (rangeMapHeads_pairwise (st1.slot i))
  have hframes := hframe.trans hframe2
  have hshort : ∀ p ∈ all, (st1.hash p).length < hashValueLength := by
    intro p hp
    rw [hframe.hash]
    exact hhash p hp
  refine ⟨⟨?_, fun l n hm => ?_, fun p hp => ?_, ?_⟩, ?_⟩
  · rw [hfind]
    refine Threaded.mono hlink fun k hk => ⟨fun _ => trivial, fun _ => ?_⟩
    -- どの group の先頭も tree にいるので、すべて繋ぎ終えている
    obtain ⟨p, hp⟩ := List.exists_mem_of_ne_nil _ hk
    obtain ⟨hp, hpk⟩ := mem_group.mp hp
    have hpk : st1.hash p = k := by
      rw [← hframe2.hash]
      exact hpk
    obtain ⟨n, hn, hkey⟩ := hload.exists_head hp
    refine ⟨((st1.hash p).length, n), ?_, ?_⟩
    · rw [List.nil_append]
      exact mem_rangeMapHeads.mpr ⟨hshort p hp, hn⟩
    · rw [hframe2.hash]
      exact hkey.trans hpk
  · rw [hrb2] at hm
    exact (hload.mem l n hm).1
  · rw [hlen]
    show (st2.hash p).length ≤ _
    rw [hframe2.hash]
    obtain ⟨n, hn, -⟩ := hload.exists_head hp
    exact hlong (_, n) (mem_rangeMapHeads.mpr ⟨hshort p hp, hn⟩)
  · rw [hlen]
    rcases hlong' with h0 | ⟨⟨l, n⟩, hg, he⟩
    · rw [h0]
      decide
    · rw [he]
      exact (mem_rangeMapHeads.mp hg).1
  · refine hframes.trans ⟨fun _ => rfl, rfl, fun _ _ => rfl, rfl, rfl,
      fun j hj => Function.update_of_ne hj _ _, ?_, ?_⟩
    · simp [RangeMaps.setSlot]
    · simp [RangeMaps.setSlot]

end Esq
