import Esq.Session.Children

/-!
# 一つの session から見た `Heap` の操作

他の session への操作が session `x` に及ぼすことは、親子の欄の書き換えか、子が終わった
ときの `ESQ_EVENT_BIT_TASK_DONE` の通知しかない。

* `Heap.Touched` — その二つのどちらかである
* `Heap.takeAction_of_ne`、`Heap.takeAction_self` — `__esq_session_take_action` が `x` に行うこと
-/

namespace Esq

open Infra

/-! ## 見る欄と記録 -/

/-- 親子に関わる欄を除いた残り。`Session.kin` と合わせて session の全部になる。 -/
def Session.work (s : Session) : Session :=
  { s with
    magic := false
    haveParentSession := false
    parentSession := none
    sessionDoneCb := 0
    childSessionList := []
    finishedChildSessionList := [] }

def SessionCell.work (c : SessionCell) : SessionCell := { c with session := c.session.work }

def ChassisEvent.effectOf (x : Nat) : ChassisEvent → Option Effect
  | .list y e => if y = x then some e else none
  | _ => none

def Heap.effects (h : Heap) (x : Nat) : List Effect :=
  h.log.filterMap (ChassisEvent.effectOf x)

section

variable {h h' h'' : Heap} {x y p : Nat} {c : SessionCell} {es : List Effect}

theorem Heap.effects_eq_of_log {qs : List ChassisEvent} (hlog : h'.log = h.log ++ qs)
    (hqs : qs.filterMap (ChassisEvent.effectOf x) = []) : h'.effects x = h.effects x := by
  unfold Heap.effects
  rw [hlog, List.filterMap_append, hqs, List.append_nil]

theorem filterMap_effectOf_self (x : Nat) (es : List Effect) :
    (es.map (.list x)).filterMap (ChassisEvent.effectOf x) = es := by
  rw [List.filterMap_map]
  refine (List.filterMap_congr fun e _ => ?_).trans (List.filterMap_some)
  exact if_pos rfl

theorem filterMap_effectOf_of_ne (hy : y ≠ x) (es : List Effect) :
    (es.map (.list y)).filterMap (ChassisEvent.effectOf x) = [] := by
  rw [List.filterMap_map, List.filterMap_eq_nil_iff]
  intro e _
  exact if_neg hy

theorem Heap.effects_commit_self : (h.commit x c es).effects x = h.effects x ++ es := by
  unfold Heap.effects Heap.commit
  rw [List.filterMap_append, filterMap_effectOf_self]

theorem Heap.effects_commit_of_ne (hy : y ≠ x) : (h.commit y c es).effects x = h.effects x :=
  Heap.effects_eq_of_log rfl (filterMap_effectOf_of_ne hy es)

end

/-! ## 手を触れない操作 -/

/-- session `x` は、親子の欄の他は変わらず、list にも poll にも何もされない。 -/
structure Heap.LeftAlone (h h' : Heap) (x : Nat) : Prop where
  work : (h'.cell x).work = (h.cell x).work
  effects : h'.effects x = h.effects x

/-- session `x` に他の session の操作が及ぼすこと。 -/
inductive Heap.Touched (h h' : Heap) (x : Nat) : Prop where
  | alone (same : h.LeftAlone h' x)
  /-- 子が終わったことを知らされる -/
  | notified (d : SessionCell) (es : List Effect) (bits : Nat) (same : d.work = (h.cell x).work)
    (step : d.ready.step { action := .notifyEvent bits } = .ok (h'.cell x, es))
    (log : h'.effects x = h.effects x ++ es)

section

variable {h h' h'' : Heap} {x y p : Nat} {c : SessionCell} {es : List Effect}
  {f : Session → Session} {r : Int} {a : ChassisAction}

theorem Heap.LeftAlone.refl (h : Heap) (x : Nat) : h.LeftAlone h x := ⟨rfl, rfl⟩

theorem Heap.LeftAlone.trans (h₁ : h.LeftAlone h' x) (h₂ : h'.LeftAlone h'' x) :
    h.LeftAlone h'' x :=
  ⟨h₂.work.trans h₁.work, h₂.effects.trans h₁.effects⟩

theorem Heap.LeftAlone.touched (h₁ : h.LeftAlone h' x) (h₂ : h'.Touched h'' x) :
    h.Touched h'' x := by
  cases h₂ with
  | alone same => exact .alone (h₁.trans same)
  | notified d es bits same step log =>
    exact .notified d es bits (same.trans h₁.work) step (by rw [log, h₁.effects])

theorem Heap.leftAlone_modify (hf : ∀ s : Session, (f s).work = s.work) :
    h.LeftAlone (h.modify p f) x := by
  refine ⟨?_, rfl⟩
  rw [Heap.cell_modify]
  split
  next hx =>
    subst hx
    unfold SessionCell.work SessionCell.withSession
    dsimp only
    rw [hf]
  · rfl

theorem Heap.leftAlone_emit {e : ChassisEvent} (he : e.effectOf x = none) :
    h.LeftAlone (h.emit e) x :=
  ⟨rfl, Heap.effects_eq_of_log rfl (by rw [List.filterMap_cons_none he]; rfl)⟩

theorem Heap.leftAlone_orphan : h.LeftAlone (h.orphan p) x := Heap.leftAlone_modify fun _ => rfl

theorem Heap.leftAlone_callDone : h.LeftAlone (h.callDone p) x := by
  unfold Heap.callDone
  split
  · exact Heap.leftAlone_emit rfl
  · exact Heap.LeftAlone.refl h x

theorem Heap.leftAlone_release : h.LeftAlone (h.release p) x :=
  have hlog : (h.release p).log = h.log ++ [.free p] := rfl
  ⟨rfl, Heap.effects_eq_of_log hlog rfl⟩

theorem Heap.leftAlone_destroy : h.LeftAlone (h.destroy p) x := by
  refine Heap.LeftAlone.trans ?_ Heap.leftAlone_release
  exact Heap.leftAlone_modify fun _ => rfl

theorem Heap.leftAlone_discard : h.LeftAlone (h.discard p) x :=
  (Heap.leftAlone_orphan.trans Heap.leftAlone_callDone).trans Heap.leftAlone_destroy

theorem Heap.leftAlone_foldl {f : Heap → Nat → Heap} (hf : ∀ (h : Heap) p, h.LeftAlone (f h p) x)
    (ps : List Nat) : h.LeftAlone (ps.foldl f h) x := by
  induction ps generalizing h with
  | nil => exact Heap.LeftAlone.refl h x
  | cons p ps ih => exact (hf h p).trans ih

theorem Heap.leftAlone_unhook : h.LeftAlone (h.esqUnhookChildSession p) x := by
  have horphan : h.LeftAlone ((h.session p).childSessionList.foldl Heap.orphan h) x :=
    Heap.leftAlone_foldl (fun _ _ => Heap.leftAlone_orphan) _
  have hdiscard := Heap.leftAlone_foldl (fun h q => Heap.leftAlone_discard (h := h) (p := q)
    (x := x)) (h.session p).finishedChildSessionList
    (h := (h.session p).childSessionList.foldl Heap.orphan h)
  unfold Heap.esqUnhookChildSession
  exact (horphan.trans hdiscard).trans (Heap.leftAlone_modify fun _ => rfl)

theorem Heap.leftAlone_move {c : Nat} (hr : h.esqMoveChildSessionIntoFinishList p c = .ok h') :
    h.LeftAlone h' x := by
  obtain ⟨-, rfl⟩ := Heap.esqMoveChildSessionIntoFinishList_ok hr
  exact Heap.leftAlone_modify fun _ => rfl

theorem Heap.leftAlone_markEnded : h.LeftAlone (h.markEnded p) x :=
  have hlog : (h.markEnded p).log = h.log ++ [.ended p] := rfl
  ⟨rfl, Heap.effects_eq_of_log hlog rfl⟩

theorem Heap.leftAlone_commit (hy : y ≠ x) : h.LeftAlone (h.commit y c es) x :=
  ⟨by rw [Heap.commit_cell_of_ne (Ne.symm hy)], Heap.effects_commit_of_ne hy⟩

theorem Heap.leftAlone_collectChildren {ps : List Nat} (hr : h.collectChildren ps = .ok h') :
    h.LeftAlone h' x := by
  induction ps generalizing h with
  | nil =>
    cases hr
    exact Heap.LeftAlone.refl _ x
  | cons p ps ih =>
    rw [Heap.collectChildren] at hr
    split at hr
    · exact (Heap.leftAlone_callDone.trans Heap.leftAlone_release).trans (ih hr)
    · cases hr

theorem Heap.leftAlone_executeSessionDoneCb (hr : h.esqExecuteSessionDoneCb p = .ok h') :
    h.LeftAlone h' x := by
  unfold Heap.esqExecuteSessionDoneCb at hr
  split at hr
  · obtain ⟨u, hu, hr⟩ := bind_eq_ok.mp hr
    cases hr
    exact (Heap.leftAlone_collectChildren hu).trans (Heap.leftAlone_modify fun _ => rfl)
  · cases hr

/-! ## `__esq_session_take_action` -/

theorem Heap.touched_notify {bits : Nat} (hn : h.esqNotifyEventToSession p bits = .ok h') :
    h.Touched h' x := by
  rcases Heap.esqNotifyEventToSession_ok hn with ⟨c, es, hstep, rfl⟩ | ⟨-, rfl⟩
  · by_cases hp : p = x
    · subst hp
      refine .notified (h.cell p) es bits rfl ?_ Heap.effects_commit_self
      rwa [Heap.commit_cell_self]
    · exact .alone (Heap.leftAlone_commit hp)
  · exact .alone (Heap.LeftAlone.refl h' x)

theorem Heap.touched_freeSession (hf : h.freeSession p = .ok h') : h.Touched h' x := by
  have hunhook : h.LeftAlone ((h.markEnded p).esqUnhookChildSession p) x :=
    Heap.leftAlone_markEnded.trans Heap.leftAlone_unhook
  unfold Heap.freeSession at hf
  dsimp only at hf
  split at hf
  · split at hf
    · obtain ⟨u, hu, hf⟩ := bind_eq_ok.mp hf
      exact (hunhook.trans (Heap.leftAlone_move hu)).touched (Heap.touched_notify hf)
    · cases hf
      exact .alone ((hunhook.trans Heap.leftAlone_callDone).trans Heap.leftAlone_destroy)
  · cases hf
    exact .alone (hunhook.trans Heap.leftAlone_destroy)

theorem Heap.touched_postActions (hp : h.postActions p = .ok (r, h')) : h.Touched h' x := by
  unfold Heap.postActions at hp
  dsimp only at hp
  split at hp
  · cases hp
    exact .alone (Heap.leftAlone_emit rfl)
  split at hp
  · cases hp
    exact .alone (Heap.leftAlone_emit rfl)
  split at hp
  · obtain ⟨u, hu, hp⟩ := bind_eq_ok.mp hp
    cases hp
    exact Heap.touched_freeSession hu
  split at hp <;> cases hp <;> exact .alone (Heap.LeftAlone.refl h x)

theorem Heap.takeAction_of_ne (hy : y ≠ x) (hr : h.esqSessionTakeAction y a = .ok (r, h')) :
    h.Touched h' x := by
  cases hm : (h.session y).magic with
  | true =>
    rw [Heap.esqSessionTakeAction_eq hm] at hr
    obtain ⟨⟨c, es⟩, -, hpost⟩ := bind_eq_ok.mp hr
    exact (Heap.leftAlone_commit hy).touched (Heap.touched_postActions hpost)
  | false =>
    rw [Heap.esqSessionTakeAction_of_not_magic hm] at hr
    cases hr
    exact .alone (Heap.LeftAlone.refl h x)

theorem Heap.takeAction_self (hr : h.esqSessionTakeAction x a = .ok (r, h')) :
    (r = esqErrorParam ∧ h' = h) ∨ ∃ c es, (h.cell x).act a = .ok (c, es)
      ∧ (h.commit x c es).postActions x = .ok (r, h') ∧ (h.commit x c es).Touched h' x := by
  cases hm : (h.session x).magic with
  | true =>
    rw [Heap.esqSessionTakeAction_eq hm] at hr
    obtain ⟨⟨c, es⟩, hact, hpost⟩ := bind_eq_ok.mp hr
    exact Or.inr ⟨c, es, hact, hpost, Heap.touched_postActions hpost⟩
  | false =>
    rw [Heap.esqSessionTakeAction_of_not_magic hm] at hr
    cases hr
    exact Or.inl ⟨rfl, rfl⟩

end

end Esq
