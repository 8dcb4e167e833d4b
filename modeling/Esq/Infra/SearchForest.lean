import Esq.Infra.SearchTree
import Mathlib.Data.List.Perm.Lattice

/-!
# 根から外れた木のある二分探索木

要素の中に木の繋がりを持つ実装では、等しい要素に着いて置けなかった要素も、後で外されることがある。
置けなかった要素は自分だけの木の根であり、根を外すと外した後の木が表の根になって、それまでの木は
根を失う。`SearchForest` は表の根の木と、根を失った木を合わせて持つ。

根を失った木があるときは、色の付け直しが根を越えて落ちることがある。どの木が表に出るか、落ちるかは
外から与える（`ForestIo`）。どう動いても、要素はちょうど一度ずつ、どれかの木にある。
-/

namespace Infra

structure SearchForest (α : Type*) where
  root : SearchTree α
  /-- 根を失った木。空になった木も残る -/
  lost : List (SearchTree α)
deriving DecidableEq, Repr

structure ForestIo (α : Type*) where
  rotate : SearchTree α → SearchTree α
  /-- 要素を外した木が表に出る -/
  surfaces : SearchTree α → Bool
  crashes : SearchTree α → Bool

namespace SearchForest

variable {α : Type*}

def empty : SearchForest α := ⟨.nil, []⟩

def lostList (f : SearchForest α) : List α := f.lost.flatMap SearchTree.toList

def toList (f : SearchForest α) : List α := f.root.toList ++ f.lostList

def find (c : α → Int) (f : SearchForest α) : Option α := f.root.find c

def falls (io : ForestIo α) (f : SearchForest α) (t : SearchTree α) : Bool :=
  !f.lost.isEmpty && io.crashes t

variable [DecidableEq α]

/-- 置く。等しい要素に着いたら、`a` は自分だけの木になる。 -/
def insert (io : ForestIo α) (c : α → Int) (a : α) (f : SearchForest α) : Option (SearchForest α) :=
  if f.falls io f.root then none
  else match f.root.find c with
    | some _ => some { f with lost := .node .nil a .nil :: f.lost }
    | none => some { f with root := (f.root.insert c a).rotate io.rotate }

def remove (io : ForestIo α) (a : α) (f : SearchForest α) : Option (SearchForest α) :=
  if a ∈ f.root.toList then
    if f.falls io f.root then none
    else some { f with root := (f.root.erase a).rotate io.rotate }
  else match f.lost.find? fun t => a ∈ t.toList with
    | none => none
    | some t =>
      if f.falls io t then none
      else
        let t' := (t.erase a).rotate io.rotate
        if io.surfaces t then some { root := t', lost := f.root :: f.lost.erase t }
        else some { f with lost := t' :: f.lost.erase t }

end SearchForest

/-! ## 要素の数 -/

section

variable {α : Type*} {a : α} {c : α → Int} {io : ForestIo α} {f f' : SearchForest α}
  {t : SearchTree α}

theorem SearchForest.falls_of_lost_nil (h : f.lost = []) : f.falls io t = false := by
  simp [SearchForest.falls, h]

theorem SearchForest.toList_of_lost_nil (h : f.lost = []) : f.toList = f.root.toList := by
  simp [SearchForest.toList, SearchForest.lostList, h]

variable [DecidableEq α]

theorem SearchTree.erase_of_not_mem : ∀ {t : SearchTree α}, a ∉ t.toList → t.erase a = t
  | nil, _ => rfl
  | node l x r, h => by
    simp only [toList, List.mem_append, List.mem_cons, not_or] at h
    obtain ⟨hl, hx, hr⟩ := h
    rw [erase, if_neg (Ne.symm hx), erase_of_not_mem hl, erase_of_not_mem hr]

/-- **重複の無い木から外すと、列からその要素だけが消える。** -/
theorem SearchTree.toList_erase : ∀ {t : SearchTree α}, t.toList.Nodup →
    (t.erase a).toList = t.toList.erase a
  | nil, _ => rfl
  | node l x r, h => by
    rw [toList] at h ⊢
    obtain ⟨hl, hxr, hdisj⟩ := List.nodup_append.mp h
    obtain ⟨-, hr⟩ := List.nodup_cons.mp hxr
    rw [erase]
    split
    · next hx =>
      subst hx
      have hnot : x ∉ l.toList := fun hm => hdisj x hm x List.mem_cons_self rfl
      rw [toList_join, List.erase_append_right _ hnot, List.erase_cons_head]
    · next hx =>
      by_cases hm : a ∈ l.toList
      · have hnot : a ∉ r.toList := fun hmr => hdisj a hm a (List.mem_cons_of_mem x hmr) rfl
        rw [toList, toList_erase hl, erase_of_not_mem hnot, List.erase_append_left _ hm]
      · rw [toList, erase_of_not_mem hm, toList_erase hr, List.erase_append_right _ hm,
          List.erase_cons_tail (by simpa using hx)]

theorem SearchForest.perm_insert (h : f.insert io c a = some f') :
    f'.toList.Perm (a :: f.toList) := by
  unfold SearchForest.insert at h
  split at h
  · cases h
  · split at h
    · cases h
      exact List.perm_middle
    · next hfind =>
      cases h
      simp only [SearchForest.toList, SearchForest.lostList, SearchTree.toList_rotate]
      exact (SearchTree.perm_insert hfind).append_right _

theorem SearchForest.perm_remove (hnd : f.toList.Nodup) (h : f.remove io a = some f') :
    f'.toList.Perm (f.toList.erase a) := by
  obtain ⟨hroot, hlost, -⟩ := List.nodup_append.mp hnd
  unfold SearchForest.remove at h
  split at h
  · next hm =>
    split at h
    · cases h
    · cases h
      simp only [SearchForest.toList, SearchForest.lostList, SearchTree.toList_rotate]
      rw [SearchTree.toList_erase hroot, List.erase_append_left _ hm]
  · next hm =>
    split at h
    · cases h
    · next t hfind =>
      have htm := List.mem_of_find?_eq_some hfind
      have hat : a ∈ t.toList := by simpa using List.find?_some hfind
      have hperm : f.lostList.Perm (t.toList ++ (f.lost.erase t).flatMap SearchTree.toList) :=
        (List.perm_cons_erase htm).flatMap_right _
      have htnd : t.toList.Nodup := (List.nodup_append.mp (hperm.nodup_iff.mp hlost)).1
      -- 外した木と、残りの根を失った木
      have hrest : ((t.erase a).toList ++ (f.lost.erase t).flatMap SearchTree.toList).Perm
          (f.lostList.erase a) := by
        rw [SearchTree.toList_erase htnd, ← List.erase_append_left _ hat]
        exact (hperm.erase a).symm
      have hgoal : (f.root.toList ++ ((t.erase a).toList
          ++ (f.lost.erase t).flatMap SearchTree.toList)).Perm (f.toList.erase a) := by
        rw [SearchForest.toList, List.erase_append_right _ hm]
        exact hrest.append_left _
      split at h
      · cases h
      · split at h
        · cases h
          simp only [SearchForest.toList, SearchForest.lostList, SearchTree.toList_rotate,
            List.flatMap_cons]
          refine List.Perm.trans ?_ hgoal
          rw [← List.append_assoc, ← List.append_assoc]
          exact List.perm_append_comm.append_right _
        · cases h
          simp only [SearchForest.toList, SearchForest.lostList, SearchTree.toList_rotate,
            List.flatMap_cons]
          exact hgoal

/-! ## 根を失った木の無い間 -/

theorem SearchForest.insert_of_find_none (h : f.lost = []) (hf : f.find c = none) :
    f.insert io c a = some ⟨(f.root.insert c a).rotate io.rotate, []⟩ := by
  unfold SearchForest.insert
  have hf : f.root.find c = none := hf
  rw [if_neg (by rw [SearchForest.falls_of_lost_nil h]; exact Bool.false_ne_true), hf]
  simp [h]

theorem SearchForest.insert_of_find_some {x : α} (h : f.lost = []) (hf : f.find c = some x) :
    f.insert io c a = some ⟨f.root, [.node .nil a .nil]⟩ := by
  unfold SearchForest.insert
  have hf : f.root.find c = some x := hf
  rw [if_neg (by rw [SearchForest.falls_of_lost_nil h]; exact Bool.false_ne_true), hf]
  simp [h]

theorem SearchForest.remove_of_lost_nil (h : f.lost = []) (ha : a ∈ f.root.toList) :
    f.remove io a = some ⟨(f.root.erase a).rotate io.rotate, []⟩ := by
  unfold SearchForest.remove
  rw [if_pos ha, if_neg (by rw [SearchForest.falls_of_lost_nil h]; exact Bool.false_ne_true), h]

end

end Infra
