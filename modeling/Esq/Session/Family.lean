import Esq.Session.CellStep

/-!
# 親子の session

親は二つの単方向の list を持つ。`child_session_list` には終わっていない子が、
`finished_child_session_list` には終わったが解放していない子がいる。子を解放する所は三つある。

* `esq_unhook_child_session` — 親が終わるとき、終わった子を解放する
* `POP_FREE_SESSION` の後始末 — 親の終わった子は、終わると自分で解放される
* `esq_execute_session_done_cb` — 親が終わった子を引き取る

ここでは親子の欄の不変量（`Kindred`）を、`Heap` の操作がどれも保つことを示す。
-/

namespace Esq

open Infra

/-! ## 生きている session -/

namespace Heap

def Live (h : Heap) (x : Nat) : Prop := h.allocated x = true ∧ h.ended x = false

instance (h : Heap) (x : Nat) : Decidable (h.Live x) := inferInstanceAs (Decidable (_ ∧ _))

def children (h : Heap) (p : Nat) : List Nat := (h.session p).childSessionList

def finishedChildren (h : Heap) (p : Nat) : List Nat := (h.session p).finishedChildSessionList

structure Retired (h : Heap) (x : Nat) : Prop where
  allocated : h.allocated x = true
  ended : h.ended x = true
  magic : (h.session x).magic = true

end Heap

structure Kindred (h : Heap) : Prop where
  magic : ∀ x, h.Live x → (h.session x).magic = true
  /-- 終わっていない子の list -/
  child : ∀ p, ∀ c ∈ h.children p, h.Live p ∧ h.Live c
    ∧ (h.session c).haveParentSession = true ∧ (h.session c).parentSession = some p
  /-- 終わった子の list -/
  finished : ∀ p, ∀ c ∈ h.finishedChildren p, h.Live p ∧ h.Retired c
    ∧ (h.session c).haveParentSession = true ∧ (h.session c).parentSession = some p
  childNodup : ∀ p, (h.children p).Nodup
  finishedNodup : ∀ p, (h.finishedChildren p).Nodup
  apart : ∀ p, p ∉ h.children p
  /-- 親を覚えている session は、その親の list にいる -/
  parent : ∀ c p, h.Live c → (h.session c).parentSession = some p →
    (h.session c).haveParentSession = true ∧ c ∈ h.children p
  /-- 親の無い session には、完了の callback も無い -/
  rootless : ∀ c, h.Live c → (h.session c).haveParentSession = false →
    (h.session c).sessionDoneCb = 0
  /-- 終わって残っている session は、親が引き取るのを待っている -/
  retired : ∀ c, h.allocated c = true → h.ended c = true → ∃ p, c ∈ h.finishedChildren p

def AllTidy (h : Heap) : Prop := ∀ x, h.Live x → (h.cell x).Tidy

theorem kindred_init : Kindred Heap.init where
  magic _ h := by cases h.1
  child _ _ h := by cases h
  finished _ _ h := by cases h
  childNodup _ := List.nodup_nil
  finishedNodup _ := List.nodup_nil
  apart _ h := by cases h
  parent _ _ h := by cases h.1
  rootless _ h := by cases h.1
  retired _ h := by cases h

theorem allTidy_init : AllTidy Heap.init := fun _ h => by cases h.1

section

variable {h h' : Heap} {x y p c : Nat}

theorem Kindred.notMem_finished (hk : Kindred h) (hl : h.Live c) : c ∉ h.finishedChildren p := by
  intro hc
  have := (hk.finished p c hc).2.1.ended
  rw [hl.2] at this
  cases this

theorem Kindred.notMem_children (hk : Kindred h) (he : h.ended c = true) : c ∉ h.children p := by
  intro hc
  have := (hk.child p c hc).2.1.2
  rw [he] at this
  cases this

theorem Kindred.children_eq_nil (hk : Kindred h) (hl : ¬ h.Live p) : h.children p = [] :=
  List.eq_nil_iff_forall_not_mem.mpr fun c hc => hl (hk.child p c hc).1

theorem Kindred.finishedChildren_eq_nil (hk : Kindred h) (hl : ¬ h.Live p) :
    h.finishedChildren p = [] :=
  List.eq_nil_iff_forall_not_mem.mpr fun c hc => hl (hk.finished p c hc).1

theorem Kindred.parent_eq (hk : Kindred h) (hc : c ∈ h.children p)
    (hparent : (h.session c).parentSession = some x) : x = p :=
  Option.some.inj (hparent.symm.trans (hk.child p c hc).2.2.2)

theorem Kindred.finished_parent_eq (hk : Kindred h) (hc : c ∈ h.finishedChildren p)
    (hparent : (h.session c).parentSession = some x) : x = p :=
  Option.some.inj (hparent.symm.trans (hk.finished p c hc).2.2.2)

/-! ## 親子の欄を変えない書き換え -/

structure SameFamily (h h' : Heap) : Prop where
  kin : ∀ y, (h'.session y).kin = (h.session y).kin
  allocated : h'.allocated = h.allocated
  ended : h'.ended = h.ended

theorem SameFamily.trans {h'' : Heap} (h₁ : SameFamily h h') (h₂ : SameFamily h' h'') :
    SameFamily h h'' where
  kin y := (h₂.kin y).trans (h₁.kin y)
  allocated := h₂.allocated.trans h₁.allocated
  ended := h₂.ended.trans h₁.ended

theorem SameFamily.live_iff (hs : SameFamily h h') : h'.Live x ↔ h.Live x := by
  unfold Heap.Live
  rw [hs.allocated, hs.ended]

theorem SameFamily.magic (hs : SameFamily h h') (x : Nat) :
    (h'.session x).magic = (h.session x).magic :=
  (Session.magic_of_kin (hs.kin x) :)

theorem SameFamily.haveParentSession (hs : SameFamily h h') (x : Nat) :
    (h'.session x).haveParentSession = (h.session x).haveParentSession :=
  (Session.haveParentSession_of_kin (hs.kin x) :)

theorem SameFamily.parentSession (hs : SameFamily h h') (x : Nat) :
    (h'.session x).parentSession = (h.session x).parentSession :=
  (Session.parentSession_of_kin (hs.kin x) :)

theorem SameFamily.sessionDoneCb (hs : SameFamily h h') (x : Nat) :
    (h'.session x).sessionDoneCb = (h.session x).sessionDoneCb :=
  (Session.sessionDoneCb_of_kin (hs.kin x) :)

theorem SameFamily.children (hs : SameFamily h h') (x : Nat) : h'.children x = h.children x :=
  (Session.childSessionList_of_kin (hs.kin x) :)

theorem SameFamily.finishedChildren (hs : SameFamily h h') (x : Nat) :
    h'.finishedChildren x = h.finishedChildren x :=
  (Session.finishedChildSessionList_of_kin (hs.kin x) :)

theorem Kindred.same (hk : Kindred h) (hs : SameFamily h h') : Kindred h' where
  magic x hl := by
    rw [hs.magic]
    exact hk.magic x (hs.live_iff.mp hl)
  child p c hc := by
    rw [hs.children] at hc
    rw [hs.live_iff, hs.live_iff, hs.haveParentSession, hs.parentSession]
    exact hk.child p c hc
  finished p c hc := by
    rw [hs.finishedChildren] at hc
    obtain ⟨hl, hr, hrest⟩ := hk.finished p c hc
    rw [hs.live_iff, hs.haveParentSession, hs.parentSession]
    refine ⟨hl, ⟨?_, ?_, ?_⟩, hrest⟩
    · rw [hs.allocated, hr.allocated]
    · rw [hs.ended, hr.ended]
    · rw [hs.magic, hr.magic]
  childNodup p := by
    rw [hs.children]
    exact hk.childNodup p
  finishedNodup p := by
    rw [hs.finishedChildren]
    exact hk.finishedNodup p
  apart p := by
    rw [hs.children]
    exact hk.apart p
  parent c p hl hp := by
    rw [hs.parentSession] at hp
    rw [hs.haveParentSession, hs.children]
    exact hk.parent c p (hs.live_iff.mp hl) hp
  rootless c hl hh := by
    rw [hs.haveParentSession] at hh
    rw [hs.sessionDoneCb]
    exact hk.rootless c (hs.live_iff.mp hl) hh
  retired c ha he := by
    rw [hs.allocated] at ha
    rw [hs.ended] at he
    obtain ⟨p, hp⟩ := hk.retired c ha he
    exact ⟨p, by rw [hs.finishedChildren]; exact hp⟩

theorem Heap.sameFamily_commit {c : SessionCell} {es : List Effect}
    (hkin : c.session.kin = (h.session x).kin) : SameFamily h (h.commit x c es) where
  kin y := by
    by_cases hy : y = x
    · subst hy
      rw [Heap.commit_session_self, hkin]
    · rw [Heap.commit_session_of_ne hy]
  allocated := rfl
  ended := rfl

end

/-! ## `esq_session_new` -/

section

variable {h : Heap} {x : Nat}

theorem Heap.session_esqSessionNew (y : Nat) :
    (h.esqSessionNew x).session y = if y = x then Esq.esqSessionNew else h.session y := by
  unfold Heap.session Heap.esqSessionNew
  by_cases hy : y = x
  · subst hy
    rw [if_pos rfl]
    dsimp only
    rw [Function.update_self]
    rfl
  · rw [if_neg hy]
    dsimp only
    rw [Function.update_of_ne hy]

theorem Heap.live_esqSessionNew (y : Nat) :
    (h.esqSessionNew x).Live y ↔ y = x ∨ h.Live y := by
  unfold Heap.Live Heap.esqSessionNew
  by_cases hy : y = x
  · subst hy
    simp
  · simp [hy]

theorem Kindred.new (hk : Kindred h) (hx : h.allocated x = false) :
    Kindred (h.esqSessionNew x) := by
  have hne : ∀ c, h.allocated c = true → c ≠ x := by
    rintro c hc rfl
    rw [hx] at hc
    cases hc
  have hself : (h.esqSessionNew x).session x = Esq.esqSessionNew := by
    rw [Heap.session_esqSessionNew, if_pos rfl]
  have hother : ∀ y, y ≠ x → (h.esqSessionNew x).session y = h.session y := fun y hy => by
    rw [Heap.session_esqSessionNew, if_neg hy]
  have hlive : ∀ y, h.Live y → (h.esqSessionNew x).Live y := fun y hy =>
    (Heap.live_esqSessionNew y).mpr (Or.inr hy)
  constructor
  case magic =>
    intro y hl
    by_cases hy : y = x
    · subst hy
      rw [hself]
      rfl
    · rw [hother y hy]
      exact hk.magic y (((Heap.live_esqSessionNew y).mp hl).resolve_left hy)
  case child =>
    intro p c hc
    by_cases hp : p = x
    · subst hp
      unfold Heap.children at hc
      rw [hself] at hc
      cases hc
    · unfold Heap.children at hc
      rw [hother p hp] at hc
      obtain ⟨h1, h2, h3⟩ := hk.child p c hc
      rw [hother c (hne c h2.1)]
      exact ⟨hlive p h1, hlive c h2, h3⟩
  case finished =>
    intro p c hc
    by_cases hp : p = x
    · subst hp
      unfold Heap.finishedChildren at hc
      rw [hself] at hc
      cases hc
    · unfold Heap.finishedChildren at hc
      rw [hother p hp] at hc
      obtain ⟨h1, h2, h3⟩ := hk.finished p c hc
      have hcx := hne c h2.allocated
      rw [hother c hcx]
      refine ⟨hlive p h1, ⟨?_, ?_, ?_⟩, h3⟩
      · exact (Function.update_of_ne hcx _ _).trans h2.allocated
      · exact (Function.update_of_ne hcx _ _).trans h2.ended
      · rw [hother c hcx]
        exact h2.magic
  case childNodup =>
    intro p
    unfold Heap.children
    rw [Heap.session_esqSessionNew]
    split
    · exact List.nodup_nil
    · exact hk.childNodup p
  case finishedNodup =>
    intro p
    unfold Heap.finishedChildren
    rw [Heap.session_esqSessionNew]
    split
    · exact List.nodup_nil
    · exact hk.finishedNodup p
  case apart =>
    intro p
    unfold Heap.children
    rw [Heap.session_esqSessionNew]
    split
    · exact List.not_mem_nil
    · exact hk.apart p
  case parent =>
    intro c p hl hp
    by_cases hc : c = x
    · subst hc
      rw [hself] at hp
      cases hp
    · rw [hother c hc] at hp ⊢
      obtain ⟨h1, h2⟩ := hk.parent c p (((Heap.live_esqSessionNew c).mp hl).resolve_left hc) hp
      refine ⟨h1, ?_⟩
      unfold Heap.children
      rw [hother p (hne p (hk.child p c h2).1.1)]
      exact h2
  case rootless =>
    intro c hl hh
    by_cases hc : c = x
    · subst hc
      rw [hself]
      rfl
    · rw [hother c hc] at hh ⊢
      exact hk.rootless c (((Heap.live_esqSessionNew c).mp hl).resolve_left hc) hh
  case retired =>
    intro c ha he
    by_cases hc : c = x
    · subst hc
      have : (h.esqSessionNew c).ended c = false := Function.update_self ..
      rw [this] at he
      cases he
    · have ha' : h.allocated c = true := (Function.update_of_ne hc _ _).symm.trans ha
      have he' : h.ended c = true := (Function.update_of_ne hc _ _).symm.trans he
      obtain ⟨p, hp⟩ := hk.retired c ha' he'
      refine ⟨p, ?_⟩
      unfold Heap.finishedChildren
      rw [hother p (hne p (hk.finished p c hp).1.1)]
      exact hp

end

/-! ## 子を手放す -/

/-- 終わった session を解放するときに起こること。 -/
def Heap.farewell (h : Heap) (p : Nat) : List ChassisEvent :=
  (if (h.session p).sessionDoneCb ≠ 0 then [.doneCb p (h.session p).sessionDoneCb] else [])
    ++ [.free p]

def SessionCell.withSession (c : SessionCell) (f : Session → Session) : SessionCell :=
  { c with session := f c.session }

section

variable {h : Heap} {x y p : Nat} {f : Session → Session}

theorem Heap.cell_modify (y : Nat) :
    (h.modify p f).cell y = if y = p then (h.cell p).withSession f else h.cell y := by
  unfold Heap.modify Heap.setCell
  dsimp only
  by_cases hy : y = p
  · subst hy
    rw [Function.update_self, if_pos rfl]
    rfl
  · rw [Function.update_of_ne hy, if_neg hy]

theorem Heap.session_modify (y : Nat) :
    (h.modify p f).session y = if y = p then f (h.session p) else h.session y := by
  unfold Heap.session
  rw [Heap.cell_modify]
  split <;> rfl

theorem Heap.cell_callDone (y : Nat) : (h.callDone p).cell y = h.cell y := by
  unfold Heap.callDone
  split <;> rfl

theorem Heap.cell_release (y : Nat) : (h.release p).cell y = h.cell y := rfl

theorem Heap.allocated_callDone : (h.callDone p).allocated = h.allocated := by
  unfold Heap.callDone
  split <;> rfl

theorem Heap.ended_callDone : (h.callDone p).ended = h.ended := by
  unfold Heap.callDone
  split <;> rfl

theorem Heap.log_callDone_release : ((h.callDone p).release p).log = h.log ++ h.farewell p := by
  unfold Heap.farewell Heap.callDone
  split <;> simp [Heap.release, Heap.emit]

theorem Heap.cell_discard (y : Nat) : (h.discard p).cell y = if y = p then
    (h.cell p).withSession fun s => { s with parentSession := none, magic := false }
    else h.cell y := by
  unfold Heap.discard Heap.destroy
  rw [Heap.cell_release, Heap.cell_modify, Heap.cell_callDone, Heap.cell_callDone]
  unfold Heap.orphan
  rw [Heap.cell_modify, Heap.cell_modify]
  by_cases hy : y = p
  · rw [if_pos hy, if_pos hy, if_pos rfl]
    rfl
  · rw [if_neg hy, if_neg hy, if_neg hy]

theorem Heap.log_discard : (h.discard p).log = h.log ++ h.farewell p := by
  have hcb : ((h.orphan p).session p).sessionDoneCb = (h.session p).sessionDoneCb := by
    unfold Heap.orphan
    rw [Heap.session_modify, if_pos rfl]
  unfold Heap.farewell
  rw [← hcb]
  unfold Heap.discard Heap.callDone
  split <;> simp [Heap.destroy, Heap.release, Heap.emit, Heap.modify, Heap.setCell, Heap.orphan]

theorem Heap.allocated_discard : (h.discard p).allocated = Function.update h.allocated p false := by
  unfold Heap.discard Heap.callDone
  split <;> rfl

theorem Heap.ended_discard : (h.discard p).ended = h.ended := by
  unfold Heap.discard Heap.callDone
  split <;> rfl

theorem Heap.foldl_orphan (ps : List Nat) (h : Heap) :
    (∀ y, (ps.foldl Heap.orphan h).cell y = if y ∈ ps then
        (h.cell y).withSession fun s => { s with parentSession := none } else h.cell y)
      ∧ (ps.foldl Heap.orphan h).allocated = h.allocated
      ∧ (ps.foldl Heap.orphan h).ended = h.ended ∧ (ps.foldl Heap.orphan h).log = h.log := by
  induction ps generalizing h with
  | nil => exact ⟨fun _ => rfl, rfl, rfl, rfl⟩
  | cons p ps ih =>
    obtain ⟨hcell, hall, hend, hlog⟩ := ih (h.orphan p)
    refine ⟨fun y => ?_, hall, hend, hlog⟩
    rw [List.foldl_cons, hcell]
    unfold Heap.orphan
    rw [Heap.cell_modify]
    by_cases hy : y = p
    · subst hy
      rw [if_pos rfl, if_pos List.mem_cons_self]
      split <;> rfl
    · rw [if_neg hy]
      simp only [List.mem_cons, hy, false_or]

theorem Heap.foldl_discard {ps : List Nat} (hn : ps.Nodup) (h : Heap) :
    (∀ y, (ps.foldl Heap.discard h).cell y = if y ∈ ps then
        (h.cell y).withSession fun s => { s with parentSession := none, magic := false }
        else h.cell y)
      ∧ (∀ y, (ps.foldl Heap.discard h).allocated y = if y ∈ ps then false else h.allocated y)
      ∧ (ps.foldl Heap.discard h).ended = h.ended
      ∧ (ps.foldl Heap.discard h).log = h.log ++ ps.flatMap h.farewell := by
  induction ps generalizing h with
  | nil => exact ⟨fun _ => rfl, fun _ => rfl, rfl, (List.append_nil _).symm⟩
  | cons p ps ih =>
    obtain ⟨hp, hn⟩ := List.nodup_cons.mp hn
    obtain ⟨hcell, hall, hend, hlog⟩ := ih hn (h.discard p)
    refine ⟨fun y => ?_, fun y => ?_, ?_, ?_⟩
    · rw [List.foldl_cons, hcell, Heap.cell_discard]
      by_cases hy : y = p
      · subst hy
        rw [if_neg hp, if_pos rfl, if_pos List.mem_cons_self]
      · rw [if_neg hy]
        simp only [List.mem_cons, hy, false_or]
    · rw [List.foldl_cons, hall, Heap.allocated_discard]
      by_cases hy : y = p
      · subst hy
        rw [if_neg hp, if_pos List.mem_cons_self, Function.update_self]
      · rw [Function.update_of_ne hy]
        simp only [List.mem_cons, hy, false_or]
    · rw [List.foldl_cons, hend, Heap.ended_discard]
    · rw [List.foldl_cons, hlog, Heap.log_discard, List.flatMap_cons, List.append_assoc]
      congr 2
      -- 先に解放した `p` は、後の子の callback を変えない
      refine List.flatMap_congr fun q hq => ?_
      unfold Heap.farewell Heap.session
      rw [Heap.cell_discard, if_neg (fun he : q = p => hp (he ▸ hq))]

theorem Heap.unhook_spec (hx : x ∉ h.children x) (hx' : x ∉ h.finishedChildren x)
    (hdisj : ∀ c ∈ h.children x, c ∉ h.finishedChildren x)
    (hn : (h.finishedChildren x).Nodup) :
    ((h.esqUnhookChildSession x).cell x = (h.cell x).withSession fun s =>
        { s with childSessionList := [], finishedChildSessionList := [] })
      ∧ (∀ y ∈ h.children x, (h.esqUnhookChildSession x).cell y
          = (h.cell y).withSession fun s => { s with parentSession := none })
      ∧ (∀ y ∈ h.finishedChildren x, (h.esqUnhookChildSession x).cell y
          = (h.cell y).withSession fun s => { s with parentSession := none, magic := false })
      ∧ (∀ y, y ≠ x → y ∉ h.children x → y ∉ h.finishedChildren x →
          (h.esqUnhookChildSession x).cell y = h.cell y)
      ∧ (∀ y, (h.esqUnhookChildSession x).allocated y
          = if y ∈ h.finishedChildren x then false else h.allocated y)
      ∧ (h.esqUnhookChildSession x).ended = h.ended
      ∧ (h.esqUnhookChildSession x).log
          = h.log ++ (h.finishedChildren x).flatMap h.farewell := by
  obtain ⟨hcell, hall, hend, hlog⟩ := Heap.foldl_orphan (h.children x) h
  obtain ⟨hcell', hall', hend', hlog'⟩ := Heap.foldl_discard hn ((h.children x).foldl Heap.orphan h)
  have hunhook : h.esqUnhookChildSession x = ((h.finishedChildren x).foldl Heap.discard
      ((h.children x).foldl Heap.orphan h)).modify x fun s =>
        { s with childSessionList := [], finishedChildSessionList := [] } := rfl
  have hat := fun y => (congrArg (fun h => h.cell y) hunhook).trans (Heap.cell_modify y)
  refine ⟨?_, ?_, ?_, ?_, ?_, ?_, ?_⟩
  · rw [hat, if_pos rfl, hcell', if_neg hx', hcell, if_neg hx]
  · intro y hy
    rw [hat, if_neg (fun he : y = x => hx (he ▸ hy)), hcell', if_neg (hdisj y hy), hcell, if_pos hy]
  · intro y hy
    rw [hat, if_neg (fun he : y = x => hx' (he ▸ hy)), hcell', if_pos hy, hcell,
      if_neg (fun hm => hdisj y hm hy)]
  · intro y hyx hy hy'
    rw [hat, if_neg hyx, hcell', if_neg hy', hcell, if_neg hy]
  · intro y
    rw [hunhook]
    exact (hall' y).trans (by rw [hall])
  · rw [hunhook]
    exact hend'.trans hend
  · rw [hunhook]
    refine hlog'.trans ?_
    rw [hlog]
    congr 1
    refine List.flatMap_congr fun q hq => ?_
    unfold Heap.farewell Heap.session
    rw [hcell, if_neg (fun hm => hdisj q hm hq)]

end

/-! ## session が終わる -/

def ChassisEvent.Quiet : ChassisEvent → Prop
  | .list _ _ => True
  | .joinNew _ _ => True
  | _ => False

def Quiet (es : List ChassisEvent) : Prop := ∀ e ∈ es, e.Quiet

structure Freed (h h' : Heap) (x : Nat) : Prop where
  ended : h'.ended = Function.update h.ended x true
  allocated : ∀ y, h'.allocated y =
    if y ∈ h.finishedChildren x ∨ (y = x ∧ (h.session x).parentSession = none) then false
    else h.allocated y
  childless : h'.children x = [] ∧ h'.finishedChildren x = []
  self : (h.session x).parentSession ≠ none → (h'.session x).kin
    = { (h.session x).kin with childSessionList := [], finishedChildSessionList := [] }
  discarded : ∀ y ∈ h.finishedChildren x,
    h'.children y = h.children y ∧ h'.finishedChildren y = h.finishedChildren y
  other : ∀ y, y ≠ x → y ∉ h.finishedChildren x → (h'.session y).kin = { (h.session y).kin with
    parentSession := if y ∈ h.children x then none else (h.session y).parentSession
    childSessionList := if (h.session x).parentSession = some y then (h.children y).erase x
      else h.children y
    finishedChildSessionList := if (h.session x).parentSession = some y
      then x :: h.finishedChildren y else h.finishedChildren y }
  control : ∀ y, y ≠ x → (h.session x).parentSession ≠ some y →
    SameControl (h.cell y) (h'.cell y)
  notified : ∀ p, (h.session x).parentSession = some p → ∃ d es, SameControl (h.cell p) d
    ∧ d.session.postOp = popNoOp
    ∧ d.step { action := .notifyEvent esqEventBitTaskDone } = .ok (h'.cell p, es)
  log : ∃ es, Quiet es ∧ h'.log = h.log ++ .ended x :: ((h.finishedChildren x).flatMap h.farewell
    ++ if (h.session x).parentSession = none then h.farewell x else es)

section

variable {h h' : Heap} {x y p : Nat}

/-- 親が子を手放した状態。`x` は終わった印だけが付いている。 -/
structure Unhooked (h u : Heap) (x : Nat) : Prop where
  ended : u.ended = Function.update h.ended x true
  allocated : ∀ y, u.allocated y = if y ∈ h.finishedChildren x then false else h.allocated y
  self : (u.session x).kin
    = { (h.session x).kin with childSessionList := [], finishedChildSessionList := [] }
  discarded : ∀ y ∈ h.finishedChildren x,
    u.children y = h.children y ∧ u.finishedChildren y = h.finishedChildren y
  other : ∀ y, y ≠ x → y ∉ h.finishedChildren x → (u.session y).kin = { (h.session y).kin with
    parentSession := if y ∈ h.children x then none else (h.session y).parentSession }
  control : ∀ y, SameControl (h.cell y) (u.cell y)
  log : u.log = h.log ++ .ended x :: (h.finishedChildren x).flatMap h.farewell

theorem SessionCell.control_withSession {c : SessionCell} {f : Session → Session}
    (ht : (f c.session).sessionType = c.session.sessionType)
    (hlc : (f c.session).lc = c.session.lc) : SameControl c (c.withSession f) :=
  ⟨rfl, rfl, ht, hlc⟩

theorem Kindred.unhooked (hk : Kindred h) (hl : h.Live x) :
    Unhooked h ((h.markEnded x).esqUnhookChildSession x) x := by
  have hx : x ∉ (h.markEnded x).children x := hk.apart x
  have hx' : x ∉ (h.markEnded x).finishedChildren x := hk.notMem_finished hl
  have hdisj : ∀ c ∈ (h.markEnded x).children x, c ∉ (h.markEnded x).finishedChildren x :=
    fun c hc => hk.notMem_finished (hk.child x c hc).2.1
  obtain ⟨hself, hchild, hdisc, hother, hall, hend, hlog⟩ :=
    Heap.unhook_spec hx hx' hdisj (hk.finishedNodup x)
  generalize (h.markEnded x).esqUnhookChildSession x = u at *
  have hdiscard : ∀ y ∈ h.finishedChildren x, u.cell y = (h.cell y).withSession fun s =>
      { s with parentSession := none, magic := false } := hdisc
  have horphan : ∀ y ∈ h.children x, u.cell y = (h.cell y).withSession fun s =>
      { s with parentSession := none } := hchild
  have hsame : ∀ y, y ≠ x → y ∉ h.children x → y ∉ h.finishedChildren x → u.cell y = h.cell y :=
    hother
  constructor
  case ended => exact hend
  case allocated => exact hall
  case self =>
    unfold Heap.session
    rw [hself]
    rfl
  case discarded =>
    intro y hy
    unfold Heap.children Heap.finishedChildren Heap.session
    rw [hdiscard y hy]
    exact ⟨rfl, rfl⟩
  case other =>
    intro y hyx hy
    unfold Heap.session
    by_cases hc : y ∈ h.children x
    · rw [horphan y hc, if_pos hc]
      rfl
    · rw [hsame y hyx hc hy, if_neg hc]
      rfl
  case control =>
    intro y
    by_cases hyx : y = x
    · subst hyx
      rw [hself]
      exact SessionCell.control_withSession rfl rfl
    by_cases hc : y ∈ h.children x
    · rw [horphan y hc]
      exact SessionCell.control_withSession rfl rfl
    by_cases hd : y ∈ h.finishedChildren x
    · rw [hdiscard y hd]
      exact SessionCell.control_withSession rfl rfl
    · rw [hsame y hyx hc hd]
      exact SameControl.refl _
  case log =>
    rw [hlog]
    show h.log ++ [.ended x] ++ (h.finishedChildren x).flatMap h.farewell = _
    simp

theorem Unhooked.freed_alone {u : Heap} (hu : Unhooked h u x) (hx : x ∉ h.finishedChildren x)
    (hp : (h.session x).parentSession = none) : Freed h ((u.callDone x).destroy x) x := by
  have hcell : ∀ y, ((u.callDone x).destroy x).cell y = if y = x then
      (u.cell x).withSession fun s => { s with magic := false } else u.cell y := fun y => by
    unfold Heap.destroy
    rw [Heap.cell_release, Heap.cell_modify, Heap.cell_callDone, Heap.cell_callDone]
  have hof : ∀ y, y ≠ x → ((u.callDone x).destroy x).cell y = u.cell y := fun y hy => by
    rw [hcell, if_neg hy]
  constructor
  case ended =>
    exact (Heap.ended_callDone).trans hu.ended
  case allocated =>
    intro y
    show Function.update (u.callDone x).allocated x false y = _
    by_cases hy : y = x
    · subst hy
      rw [Function.update_self, if_pos (Or.inr ⟨rfl, hp⟩)]
    · rw [Function.update_of_ne hy, Heap.allocated_callDone, hu.allocated]
      simp only [hy, false_and, or_false]
  case childless =>
    have hlists : (u.session x).childSessionList = [] ∧ (u.session x).finishedChildSessionList = [] :=
      ⟨congrArg Session.childSessionList hu.self, congrArg Session.finishedChildSessionList hu.self⟩
    unfold Heap.children Heap.finishedChildren Heap.session
    rw [hcell, if_pos rfl]
    exact hlists
  case self => exact fun hne => absurd hp hne
  case discarded =>
    intro y hy
    have hne : y ≠ x := by
      rintro rfl
      exact hx hy
    unfold Heap.children Heap.finishedChildren Heap.session
    rw [hof y hne]
    exact hu.discarded y hy
  case other =>
    intro y hyx hy
    have := hu.other y hyx hy
    rw [hp]
    unfold Heap.session at this ⊢
    rw [hof y hyx, this]
    rfl
  case control =>
    intro y hyx _
    rw [hof y hyx]
    exact hu.control y
  case notified =>
    intro p hp'
    rw [hp] at hp'
    cases hp'
  case log =>
    have hcb : (u.session x).sessionDoneCb = (h.session x).sessionDoneCb := by
      exact (Session.sessionDoneCb_of_kin hu.self :)
    refine ⟨[], fun _ he => absurd he List.not_mem_nil, ?_⟩
    have hlog : ((u.callDone x).destroy x).log = u.log ++ h.farewell x := by
      unfold Heap.farewell
      rw [← hcb]
      unfold Heap.callDone
      split <;> simp [Heap.destroy, Heap.release, Heap.emit, Heap.modify, Heap.setCell]
    rw [hlog, hu.log, if_pos hp]
    simp

theorem Unhooked.freed_parent {u v : Heap} (hu : Unhooked h u x)
    (hp : (h.session x).parentSession = some p) (hpx : p ≠ x) (hpf : p ∉ h.finishedChildren x)
    (hm : (h.session p).magic = true)
    (hv : u.esqMoveChildSessionIntoFinishList p x = .ok v)
    (hn : v.esqNotifyEventToSession p esqEventBitTaskDone = .ok h') : Freed h h' x := by
  have hkp := hu.other p hpx hpf
  obtain ⟨-, hmodify⟩ := Heap.esqMoveChildSessionIntoFinishList_ok hv
  have hvcell : ∀ y, v.cell y = if y = p then (u.cell p).withSession fun s => { s with
      childSessionList := s.childSessionList.erase x
      finishedChildSessionList := x :: s.finishedChildSessionList } else u.cell y := by
    rw [hmodify]
    exact Heap.cell_modify
  have hvall : v.allocated = u.allocated ∧ v.ended = u.ended ∧ v.log = u.log := by
    rw [hmodify]
    exact ⟨rfl, rfl, rfl⟩
  have hvp : (v.session p).magic = true := by
    have hmp : (u.session p).magic = (h.session p).magic := by
      exact (Session.magic_of_kin hkp :)
    unfold Heap.session
    rw [hvcell, if_pos rfl]
    exact hmp.trans hm
  -- 親は一歩進むだけで、親子の欄は変わらない
  obtain ⟨c, es, hstep, rfl⟩ := (Heap.esqNotifyEventToSession_ok hn).resolve_right fun hno => by
    rw [hvp] at hno
    cases hno.1
  have hkin : c.session.kin = (v.session p).kin :=
    SessionCell.step_kin (c := (v.cell p).ready) hstep
      ⟨fun _ _ => Action.noConfusion, fun _ => Action.noConfusion⟩
  have hof : ∀ y, y ≠ p → (v.commit p c es).cell y = u.cell y := fun y hy => by
    rw [Heap.commit_cell_of_ne hy, hvcell, if_neg hy]
  have hsame : SameFamily v (v.commit p c es) := Heap.sameFamily_commit hkin
  have hxp : x ≠ p := fun he => hpx he.symm
  have hsession : ∀ y, y ≠ p → (v.commit p c es).session y = u.session y := fun y hy =>
    congrArg SessionCell.session (hof y hy)
  constructor
  case ended => exact hsame.ended.trans (hvall.2.1.trans hu.ended)
  case allocated =>
    intro y
    rw [hsame.allocated, hvall.1, hu.allocated, hp]
    simp
  case childless =>
    unfold Heap.children Heap.finishedChildren
    rw [hsession x hxp]
    exact ⟨congrArg Session.childSessionList hu.self,
      congrArg Session.finishedChildSessionList hu.self⟩
  case self =>
    intro _
    rw [hsession x hxp]
    exact hu.self
  case discarded =>
    intro y hy
    have hne : y ≠ p := by
      rintro rfl
      exact hpf hy
    unfold Heap.children Heap.finishedChildren
    rw [hsession y hne]
    exact hu.discarded y hy
  case other =>
    intro y hyx hy
    rw [hp]
    by_cases hyp : y = p
    · subst hyp
      rw [hsame.kin]
      have hvk : v.session y = { u.session y with
          childSessionList := (u.session y).childSessionList.erase x
          finishedChildSessionList := x :: (u.session y).finishedChildSessionList } := by
        unfold Heap.session
        rw [hvcell, if_pos rfl]
        rfl
      have hc : (u.session y).childSessionList = h.children y := by
        exact (Session.childSessionList_of_kin hkp :)
      have hf : (u.session y).finishedChildSessionList = h.finishedChildren y := by
        exact (Session.finishedChildSessionList_of_kin hkp :)
      rw [hvk, if_pos rfl, if_pos rfl, ← hc, ← hf]
      have := congrArg (fun s : Session => { s with
        childSessionList := (u.session y).childSessionList.erase x
        finishedChildSessionList := x :: (u.session y).finishedChildSessionList }) hkp
      exact this
    · rw [hsession y hyp, if_neg (fun he => hyp (Option.some.inj he).symm),
        if_neg (fun he => hyp (Option.some.inj he).symm)]
      exact hu.other y hyx hy
  case control =>
    intro y hyx hy
    have hyp : y ≠ p := by
      rintro rfl
      exact hy hp
    rw [hof y hyp]
    exact hu.control y
  case notified =>
    intro q hq
    rw [hp] at hq
    cases hq
    have hc := hu.control p
    refine ⟨(v.cell p).ready, es, ?_, rfl, ?_⟩
    · rw [hvcell, if_pos rfl]
      exact ⟨hc.wait, hc.mco, hc.sessionType, hc.lc⟩
    · rw [Heap.commit_cell_self]
      exact hstep
  case log =>
    refine ⟨es.map (.list p), ?_, ?_⟩
    · intro e he
      obtain ⟨eff, -, rfl⟩ := List.mem_map.mp he
      trivial
    · show v.log ++ es.map (.list p) = _
      rw [hvall.2.2, hu.log, hp, if_neg (Option.some_ne_none p)]
      simp

/-- **終わる session は、子を手放し、親の終わった子の list に移るか、解放される。** -/
theorem Kindred.freed (hk : Kindred h) (hl : h.Live x) (hf : h.freeSession x = .ok h') :
    Freed h h' x := by
  have hu := hk.unhooked hl
  have hx := hk.notMem_finished (p := x) hl
  unfold Heap.freeSession at hf
  dsimp only at hf
  generalize (h.markEnded x).esqUnhookChildSession x = u at hu hf
  have hhave : (u.session x).haveParentSession = (h.session x).haveParentSession := by
    exact (Session.haveParentSession_of_kin hu.self :)
  have hparent : (u.session x).parentSession = (h.session x).parentSession := by
    exact (Session.parentSession_of_kin hu.self :)
  rw [hhave, hparent] at hf
  cases hp : (h.session x).parentSession with
  | none =>
    have heq : h' = (u.callDone x).destroy x := by
      rw [hp] at hf
      split at hf
      · cases hf
        rfl
      next hh =>
        cases hf
        have hcb : (u.session x).sessionDoneCb = (h.session x).sessionDoneCb := by
          exact (Session.sessionDoneCb_of_kin hu.self :)
        unfold Heap.callDone
        rw [if_neg]
        rw [hcb, hk.rootless x hl (Bool.eq_false_iff.mpr hh)]
        exact not_not.mpr rfl
    rw [heq]
    exact hu.freed_alone hx hp
  | some p =>
    obtain ⟨hhp, hmem⟩ := hk.parent x p hl hp
    rw [hp, hhp, if_pos rfl] at hf
    obtain ⟨v, hv, hn⟩ := bind_eq_ok.mp hf
    have hlive := (hk.child p x hmem).1
    refine hu.freed_parent hp ?_ (hk.notMem_finished hlive) (hk.magic p hlive) hv hn
    rintro rfl
    exact hk.apart p hmem

theorem Freed.live_iff (hk : Kindred h) (hf : Freed h h' x) :
    h'.Live y ↔ h.Live y ∧ y ≠ x := by
  unfold Heap.Live
  rw [hf.ended, hf.allocated]
  constructor
  · rintro ⟨ha, he⟩
    have hyx : y ≠ x := by
      rintro rfl
      rw [Function.update_self] at he
      cases he
    rw [Function.update_of_ne hyx] at he
    split at ha
    · cases ha
    · exact ⟨⟨ha, he⟩, hyx⟩
  · rintro ⟨⟨ha, he⟩, hyx⟩
    rw [Function.update_of_ne hyx, if_neg]
    · exact ⟨ha, he⟩
    · rintro (hm | ⟨rfl, -⟩)
      · exact hk.notMem_finished ⟨ha, he⟩ hm
      · exact hyx rfl

theorem Freed.children_of_live (hk : Kindred h) (hf : Freed h h' x) (hy : h.Live y)
    (hyx : y ≠ x) : h'.children y
      = if (h.session x).parentSession = some y then (h.children y).erase x else h.children y := by
  exact Session.childSessionList_of_kin (hf.other y hyx (hk.notMem_finished hy))

theorem Freed.finishedChildren_of_live (hk : Kindred h) (hf : Freed h h' x) (hy : h.Live y)
    (hyx : y ≠ x) : h'.finishedChildren y
      = if (h.session x).parentSession = some y then x :: h.finishedChildren y
        else h.finishedChildren y := by
  exact Session.finishedChildSessionList_of_kin (hf.other y hyx (hk.notMem_finished hy))

theorem Freed.parentSession_of_ne (hf : Freed h h' x) (hyx : y ≠ x)
    (hy : y ∉ h.finishedChildren x) :
    (h'.session y).magic = (h.session y).magic
      ∧ (h'.session y).haveParentSession = (h.session y).haveParentSession
      ∧ (h'.session y).sessionDoneCb = (h.session y).sessionDoneCb
      ∧ (h'.session y).parentSession
        = if y ∈ h.children x then none else (h.session y).parentSession := by
  have heq := hf.other y hyx hy
  refine ⟨?_, ?_, ?_, ?_⟩
  · exact (Session.magic_of_kin heq :)
  · exact (Session.haveParentSession_of_kin heq :)
  · exact (Session.sessionDoneCb_of_kin heq :)
  · exact Session.parentSession_of_kin heq

section

variable (hk : Kindred h) (hl : h.Live x) (hf : Freed h h' x)
include hk hl hf

theorem Freed.mem_children_iff (p c : Nat) :
    c ∈ h'.children p ↔ c ∈ h.children p ∧ p ≠ x ∧ c ≠ x := by
  by_cases hpx : p = x
  · subst hpx
    rw [hf.childless.1]
    simp
  by_cases hp : h.Live p
  · rw [hf.children_of_live hk hp hpx]
    by_cases hparent : (h.session x).parentSession = some p
    · rw [if_pos hparent, (hk.childNodup p).mem_erase_iff]
      exact ⟨fun hc => ⟨hc.2, hpx, hc.1⟩, fun hc => ⟨hc.2.2, hc.1⟩⟩
    · rw [if_neg hparent]
      refine ⟨fun hc => ⟨hc, hpx, ?_⟩, And.left⟩
      rintro rfl
      exact hparent (hk.child p c hc).2.2.2
  · have hnil := hk.children_eq_nil hp
    have hnil' : h'.children p = [] := by
      by_cases hpf : p ∈ h.finishedChildren x
      · rw [(hf.discarded p hpf).1, hnil]
      · refine (Session.childSessionList_of_kin (hf.other p hpx hpf)).trans ?_
        show (if _ then (h.children p).erase x else h.children p) = []
        rw [hnil]
        split <;> rfl
    rw [hnil, hnil']
    simp

theorem Freed.mem_finishedChildren_iff (p c : Nat) : c ∈ h'.finishedChildren p ↔ p ≠ x ∧
    (c ∈ h.finishedChildren p ∨ c = x ∧ (h.session x).parentSession = some p) := by
  by_cases hpx : p = x
  · subst hpx
    rw [hf.childless.2]
    simp
  by_cases hp : h.Live p
  · rw [hf.finishedChildren_of_live hk hp hpx]
    split
    next hparent =>
      rw [List.mem_cons]
      exact ⟨fun hc => ⟨hpx, hc.symm.imp id fun he => ⟨he, hparent⟩⟩,
        fun hc => (hc.2.imp id And.left).symm⟩
    next hparent =>
      exact ⟨fun hc => ⟨hpx, Or.inl hc⟩, fun hc => hc.2.resolve_right fun he => hparent he.2⟩
  · have hnil := hk.finishedChildren_eq_nil hp
    have hparent : (h.session x).parentSession ≠ some p := fun he =>
      hp (hk.child p x (hk.parent x p hl he).2).1
    have hnil' : h'.finishedChildren p = [] := by
      by_cases hpf : p ∈ h.finishedChildren x
      · rw [(hf.discarded p hpf).2, hnil]
      · refine (Session.finishedChildSessionList_of_kin (hf.other p hpx hpf)).trans ?_
        show (if _ then x :: h.finishedChildren p else h.finishedChildren p) = []
        rw [if_neg hparent, hnil]
    rw [hnil, hnil']
    simp [hparent]

theorem Freed.finished_old {p c : Nat} (hpx : p ≠ x) (hc : c ∈ h.finishedChildren p) :
    h'.Live p ∧ h'.Retired c ∧ (h'.session c).haveParentSession = true
      ∧ (h'.session c).parentSession = some p := by
  obtain ⟨hp, hr, hhave, hparent⟩ := hk.finished p c hc
  have hcx : c ≠ x := by
    rintro rfl
    have := hr.ended
    rw [hl.2] at this
    cases this
  have hcf : c ∉ h.finishedChildren x := by
    intro hcf
    exact hpx (hk.finished_parent_eq hcf hparent)
  obtain ⟨hm, hh, -, hpar⟩ := hf.parentSession_of_ne hcx hcf
  refine ⟨(hf.live_iff hk).mpr ⟨hp, hpx⟩, ⟨?_, ?_, hm.trans hr.magic⟩, hh.trans hhave, ?_⟩
  · rw [hf.allocated, if_neg (fun ho => ho.elim hcf fun he => hcx he.1), hr.allocated]
  · rw [hf.ended, Function.update_of_ne hcx, hr.ended]
  · rw [hpar, if_neg (hk.notMem_children hr.ended), hparent]

theorem Freed.finished_self {p : Nat} (hpx : p ≠ x) (hparent : (h.session x).parentSession = some p) :
    h'.Live p ∧ h'.Retired x ∧ (h'.session x).haveParentSession = true
      ∧ (h'.session x).parentSession = some p := by
  have hself := hf.self (by rw [hparent]; exact Option.some_ne_none p)
  obtain ⟨hhave, hmem⟩ := hk.parent x p hl hparent
  refine ⟨(hf.live_iff hk).mpr ⟨(hk.child p x hmem).1, hpx⟩, ⟨?_, ?_, ?_⟩, ?_, ?_⟩
  · rw [hf.allocated, if_neg, hl.1]
    rintro (hc | ⟨-, hnone⟩)
    · exact hk.notMem_finished hl hc
    · rw [hparent] at hnone
      cases hnone
  · rw [hf.ended, Function.update_self]
  · exact (Session.magic_of_kin hself).trans (hk.magic x hl)
  · exact (Session.haveParentSession_of_kin hself).trans hhave
  · exact (Session.parentSession_of_kin hself).trans hparent

theorem Freed.retired_parent {c : Nat} (ha : h'.allocated c = true) (he : h'.ended c = true) :
    ∃ p, c ∈ h'.finishedChildren p := by
  have hmemf := hf.mem_finishedChildren_iff hk hl
  rw [hf.allocated] at ha
  split at ha
  · cases ha
  next hn =>
    by_cases hcx : c = x
    · subst hcx
      cases hparent : (h.session c).parentSession with
      | none => exact absurd (Or.inr ⟨rfl, hparent⟩) hn
      | some p =>
        refine ⟨p, (hmemf p c).mpr ⟨?_, Or.inr ⟨rfl, hparent⟩⟩⟩
        rintro rfl
        exact hk.apart p (hk.parent p p hl hparent).2
    · rw [hf.ended, Function.update_of_ne hcx] at he
      obtain ⟨p, hp⟩ := hk.retired c ha he
      refine ⟨p, (hmemf p c).mpr ⟨?_, Or.inl hp⟩⟩
      rintro rfl
      exact hn (Or.inl hp)

/-- **終わる session の後始末は、親子の不変量を保つ。** -/
theorem Freed.kindred : Kindred h' := by
  have hlive : ∀ y, h'.Live y ↔ h.Live y ∧ y ≠ x := fun y => hf.live_iff hk
  have hmem := hf.mem_children_iff hk hl
  have hmemf := hf.mem_finishedChildren_iff hk hl
  have hother := fun y => hf.parentSession_of_ne (y := y)
  constructor
  case magic =>
    intro y hy
    obtain ⟨hy, hyx⟩ := (hlive y).mp hy
    rw [(hother y hyx (hk.notMem_finished hy)).1]
    exact hk.magic y hy
  case child =>
    intro p c hc
    obtain ⟨hc, hpx, hcx⟩ := (hmem p c).mp hc
    obtain ⟨hp, hcl, hhave, hparent⟩ := hk.child p c hc
    obtain ⟨-, hh, -, hpar⟩ := hother c hcx (hk.notMem_finished hcl)
    refine ⟨(hlive p).mpr ⟨hp, hpx⟩, (hlive c).mpr ⟨hcl, hcx⟩, hh.trans hhave, ?_⟩
    rw [hpar, if_neg, hparent]
    intro hcx'
    exact hpx (hk.parent_eq hcx' hparent)
  case finished =>
    intro p c hc
    obtain ⟨hpx, hc⟩ := (hmemf p c).mp hc
    rcases hc with hc | ⟨rfl, hparent⟩
    · exact hf.finished_old hk hl hpx hc
    · exact hf.finished_self hk hl hpx hparent
  case childNodup =>
    intro p
    by_cases hp : h'.Live p
    · obtain ⟨hp, hpx⟩ := (hlive p).mp hp
      rw [hf.children_of_live hk hp hpx]
      split
      · exact (hk.childNodup p).erase x
      · exact hk.childNodup p
    · have : h'.children p = [] := List.eq_nil_iff_forall_not_mem.mpr fun c hc => by
        obtain ⟨hc, hpx, -⟩ := (hmem p c).mp hc
        exact hp ((hlive p).mpr ⟨(hk.child p c hc).1, hpx⟩)
      rw [this]
      exact List.nodup_nil
  case finishedNodup =>
    intro p
    by_cases hpx : p = x
    · subst hpx
      rw [hf.childless.2]
      exact List.nodup_nil
    by_cases hp : h.Live p
    · rw [hf.finishedChildren_of_live hk hp hpx]
      split
      · exact List.nodup_cons.mpr ⟨hk.notMem_finished hl, hk.finishedNodup p⟩
      · exact hk.finishedNodup p
    · have : h'.finishedChildren p = [] := List.eq_nil_iff_forall_not_mem.mpr fun c hc => by
        obtain ⟨-, hc | ⟨rfl, hparent⟩⟩ := (hmemf p c).mp hc
        · exact hp (hk.finished p c hc).1
        · exact hp (hk.child p c (hk.parent c p hl hparent).2).1
      rw [this]
      exact List.nodup_nil
  case apart =>
    intro p hp
    exact hk.apart p ((hmem p p).mp hp).1
  case parent =>
    intro c p hc hpar
    obtain ⟨hc, hcx⟩ := (hlive c).mp hc
    obtain ⟨-, hh, -, hpar'⟩ := hother c hcx (hk.notMem_finished hc)
    rw [hpar'] at hpar
    split at hpar
    · cases hpar
    next hcc =>
      obtain ⟨hhave, hmem'⟩ := hk.parent c p hc hpar
      refine ⟨hh.trans hhave, (hmem p c).mpr ⟨hmem', ?_, hcx⟩⟩
      rintro rfl
      exact hcc hmem'
  case rootless =>
    intro c hc hh
    obtain ⟨hc, hcx⟩ := (hlive c).mp hc
    obtain ⟨-, hh', hcb, -⟩ := hother c hcx (hk.notMem_finished hc)
    rw [hcb]
    exact hk.rootless c hc (hh'.symm.trans hh)
  case retired => exact fun c => hf.retired_parent hk hl

end

end

/-! ## `__esq_session_take_action` -/

def Heap.logged (h : Heap) (qs : List ChassisEvent) : Heap := { h with log := h.log ++ qs }

/-- `__esq_session_take_action` が session `x` の欄を `c` にした後に起こること。 -/
inductive TookAction (h : Heap) (x : Nat) (a : ChassisAction) (h' : Heap) : Prop where
  /-- 終わらずに続く -/
  | calm (c : SessionCell) (es : List Effect) (qs : List ChassisEvent)
    (act : (h.cell x).act a = .ok (c, es)) (tidy : (h.cell x).Tidy → c.Tidy) (quiet : Quiet qs)
    (eq : h' = (h.commit x c es).logged qs)
  /-- 終わる -/
  | ends (c : SessionCell) (es : List Effect) (act : (h.cell x).act a = .ok (c, es))
    (op : Ends c.session.postOp) (freed : (h.commit x c es).freeSession x = .ok h')

section

variable {h h' : Heap} {x y p c : Nat} {a : ChassisAction} {r : Int}

theorem Heap.logged_nil : h.logged [] = h := by
  unfold Heap.logged
  rw [List.append_nil]

theorem Heap.sameFamily_logged (qs : List ChassisEvent) : SameFamily h (h.logged qs) :=
  ⟨fun _ => rfl, rfl, rfl⟩

theorem quiet_lists (x : Nat) (es : List Effect) : Quiet (es.map (.list x)) := by
  intro e he
  obtain ⟨eff, -, rfl⟩ := List.mem_map.mp he
  trivial

theorem Heap.postActions_calm (hop : Calm (h.session x).postOp)
    (hp : h.postActions x = .ok (r, h')) :
    ∃ qs, Quiet qs ∧ h' = h.logged qs := by
  unfold Heap.postActions at hp
  rcases hop with hop | hop | hop | hop
  · rw [hop] at hp
    cases hp
    exact ⟨[], fun _ he => absurd he List.not_mem_nil, Heap.logged_nil.symm⟩
  · rw [hop] at hp
    cases hp
    exact ⟨[], fun _ he => absurd he List.not_mem_nil, Heap.logged_nil.symm⟩
  · rw [hop] at hp
    cases hp
    exact ⟨[.joinNew x .localNew], by simp [Quiet, ChassisEvent.Quiet], rfl⟩
  · rw [hop] at hp
    cases hp
    exact ⟨[.joinNew x .globalNew], by simp [Quiet, ChassisEvent.Quiet], rfl⟩

theorem Heap.postActions_ends (hop : Ends (h.session x).postOp)
    (hp : h.postActions x = .ok (r, h')) : h.freeSession x = .ok h' := by
  unfold Heap.postActions at hp
  rcases hop with hop | hop <;>
    · rw [hop] at hp
      obtain ⟨u, hu, hp⟩ := bind_eq_ok.mp (show h.freeSession x >>= _ = _ from hp)
      obtain ⟨-, rfl⟩ := Prod.mk.inj (Except.ok.inj hp)
      exact hu

/-- **action を受けた session は、欄を書き換えて続くか、終わる。** -/
theorem Heap.tookAction (hm : (h.session x).magic = true)
    (hr : h.esqSessionTakeAction x a = .ok (r, h')) : TookAction h x a h' := by
  rw [Heap.esqSessionTakeAction_eq hm] at hr
  obtain ⟨⟨c, es⟩, hact, hpost⟩ := bind_eq_ok.mp hr
  dsimp only at hpost
  rcases SessionCell.act_settled hact with ⟨ht', hop⟩ | hop
  · obtain ⟨qs, hq, heq⟩ := Heap.postActions_calm (by rwa [Heap.commit_session_self]) hpost
    exact .calm c es qs hact ht' hq heq
  · exact .ends c es hact hop
      (Heap.postActions_ends (by rwa [Heap.commit_session_self]) hpost)

theorem Freed.allTidy (hk : Kindred h) (ht : ∀ y, h.Live y → y ≠ x → (h.cell y).Tidy)
    (hf : Freed h h' x) : AllTidy h' := by
  intro y hy
  obtain ⟨hy, hyx⟩ := (hf.live_iff hk).mp hy
  by_cases hp : (h.session x).parentSession = some y
  · obtain ⟨d, es, hd, hop, hstep⟩ := hf.notified y hp
    exact (SessionCell.step_notifyEvent (hd.tidy (ht y hy hyx)) hop hstep).1
  · exact (hf.control y hyx hp).tidy (ht y hy hyx)

/-! ## `esq_session_bundle_child` -/

structure Bundled (h h' : Heap) (p c cb : Nat) : Prop where
  ne : c ≠ p
  rootless : (h.session c).haveParentSession = false
  child : (h'.session c).kin = { (h.session c).kin with
    haveParentSession := true, parentSession := some p, sessionDoneCb := cb }
  parent : (h'.session p).kin = { (h.session p).kin with
    childSessionList := c :: (h.session p).childSessionList }
  other : ∀ y, y ≠ c → y ≠ p → h'.cell y = h.cell y
  control : ∀ y, SameControl (h.cell y) (h'.cell y)
  allocated : h'.allocated = h.allocated
  ended : h'.ended = h.ended
  log : h'.log = h.log

theorem Heap.takeAction_noOp {d : SessionCell} (hm : (h.session x).magic = true)
    (hact : (h.cell x).act a = .ok (d, [])) (hop : d.session.postOp = popNoOp)
    (hr : h.esqSessionTakeAction x a = .ok (r, h')) : r = esqOk ∧ h' = h.commit x d [] := by
  rw [Heap.esqSessionTakeAction_eq hm, hact] at hr
  have hpost : (h.commit x d []).postActions x = .ok (r, h') := hr
  unfold Heap.postActions at hpost
  rw [Heap.commit_session_self, hop] at hpost
  cases hpost
  exact ⟨rfl, rfl⟩

theorem Kindred.bundled {cb : Nat} (hk : Kindred h) (ht : AllTidy h) (hp : h.Live p)
    (hc : h.Live c) (hr : h.esqSessionBundleChild p c cb = .ok (r, h')) : Bundled h h' p c cb := by
  unfold Heap.esqSessionBundleChild at hr
  rw [if_pos ⟨hk.magic p hp, hk.magic c hc⟩] at hr
  obtain ⟨⟨r₁, u⟩, hset, hr⟩ := bind_eq_ok.mp hr
  dsimp only at hr
  obtain ⟨⟨c', es⟩, hact, -⟩ := bind_eq_ok.mp
    ((Heap.esqSessionTakeAction_eq (hk.magic c hc)).symm.trans hset)
  obtain ⟨hinit, hhave, rfl, hctl, hop, hkin⟩ := SessionCell.act_setParent (ht c hc) hact
  obtain ⟨rfl, rfl⟩ := Heap.takeAction_noOp (hk.magic c hc) hact hop hset
  rw [if_neg (show ¬ esqOk ≠ 0 from not_not.mpr rfl)] at hr
  have hinit' : c'.Initial := by
    unfold SessionCell.Initial at hinit ⊢
    rw [hctl.sessionType, hctl.lc, hctl.wait]
    exact hinit
  have htidy' := hctl.tidy (ht c hc)
  -- 親になる session は callback の中にいるので、子とは別の session である
  have hmu : ((h.commit c c' []).session p).magic = true := by
    by_cases hpc : p = c
    · subst hpc
      rw [Heap.commit_session_self]
      exact (Session.magic_of_kin hkin).trans (hk.magic p hp)
    · rw [Heap.commit_session_of_ne hpc]
      exact hk.magic p hp
  obtain ⟨⟨p', es'⟩, hact', -⟩ := bind_eq_ok.mp ((Heap.esqSessionTakeAction_eq hmu).symm.trans hr)
  have htu : ((h.commit c c' []).cell p).Tidy := by
    by_cases hpc : p = c
    · subst hpc
      rw [Heap.commit_cell_self]
      exact htidy'
    · rw [Heap.commit_cell_of_ne hpc]
      exact ht p hp
  obtain ⟨hcallback, rfl, hctl', hop', hkin'⟩ := SessionCell.act_addChild htu hact'
  have hpc : p ≠ c := by
    rintro rfl
    rw [Heap.commit_cell_self] at hcallback
    exact hinit'.not_inCallback hcallback
  obtain ⟨-, rfl⟩ := Heap.takeAction_noOp hmu hact' hop' hr
  rw [Heap.commit_cell_of_ne hpc] at hctl' hkin'
  constructor
  case ne => exact hpc.symm
  case rootless => exact hhave
  case child =>
    rw [Heap.commit_session_of_ne hpc.symm, Heap.commit_session_self]
    exact hkin
  case parent =>
    rw [Heap.commit_session_self]
    exact hkin'
  case other =>
    intro y hyc hyp
    rw [Heap.commit_cell_of_ne hyp, Heap.commit_cell_of_ne hyc]
  case control =>
    intro y
    by_cases hyp : y = p
    · subst hyp
      rw [Heap.commit_cell_self]
      exact hctl'
    by_cases hyc : y = c
    · subst hyc
      rw [Heap.commit_cell_of_ne hyp, Heap.commit_cell_self]
      exact hctl
    · rw [Heap.commit_cell_of_ne hyp, Heap.commit_cell_of_ne hyc]
      exact SameControl.refl _
  case allocated => rfl
  case ended => rfl
  case log => simp [Heap.commit]

theorem Bundled.live_iff {cb : Nat} (hb : Bundled h h' p c cb) : h'.Live y ↔ h.Live y := by
  unfold Heap.Live
  rw [hb.allocated, hb.ended]

theorem Bundled.children_iff {cb : Nat} (hb : Bundled h h' p c cb) (q d : Nat) :
    d ∈ h'.children q ↔ d ∈ h.children q ∨ q = p ∧ d = c := by
  by_cases hqp : q = p
  · subst hqp
    have : h'.children q = c :: h.children q := by
      exact Session.childSessionList_of_kin hb.parent
    rw [this, List.mem_cons]
    constructor
    · rintro (rfl | hd)
      · exact Or.inr ⟨rfl, rfl⟩
      · exact Or.inl hd
    · rintro (hd | ⟨-, rfl⟩)
      · exact Or.inr hd
      · exact Or.inl rfl
  · have : h'.children q = h.children q := by
      by_cases hqc : q = c
      · subst hqc
        exact (Session.childSessionList_of_kin hb.child :)
      · exact congrArg (fun d : SessionCell => d.session.childSessionList) (hb.other q hqc hqp)
    rw [this]
    simp [hqp]

theorem Bundled.finishedChildren {cb : Nat} (hb : Bundled h h' p c cb) (q : Nat) :
    h'.finishedChildren q = h.finishedChildren q := by
  by_cases hqp : q = p
  · subst hqp
    exact (Session.finishedChildSessionList_of_kin hb.parent :)
  by_cases hqc : q = c
  · subst hqc
    exact (Session.finishedChildSessionList_of_kin hb.child :)
  · exact congrArg (fun d : SessionCell => d.session.finishedChildSessionList) (hb.other q hqc hqp)

theorem Bundled.of_ne {cb : Nat} (hb : Bundled h h' p c cb) (hy : y ≠ c) :
    (h'.session y).magic = (h.session y).magic
      ∧ (h'.session y).haveParentSession = (h.session y).haveParentSession
      ∧ (h'.session y).parentSession = (h.session y).parentSession
      ∧ (h'.session y).sessionDoneCb = (h.session y).sessionDoneCb := by
  by_cases hyp : y = p
  · subst hyp
    refine ⟨?_, ?_, ?_, ?_⟩
    · exact (Session.magic_of_kin hb.parent :)
    · exact (Session.haveParentSession_of_kin hb.parent :)
    · exact (Session.parentSession_of_kin hb.parent :)
    · exact (Session.sessionDoneCb_of_kin hb.parent :)
  · unfold Heap.session
    rw [hb.other y hy hyp]
    exact ⟨rfl, rfl, rfl, rfl⟩

theorem Bundled.kindred {cb : Nat} (hk : Kindred h) (hp : h.Live p) (hc : h.Live c)
    (hb : Bundled h h' p c cb) : Kindred h' := by
  have hmem := hb.children_iff
  -- 親を覚えていない session は、まだどの list にもいない
  have hnot : ∀ q, c ∉ h.children q := fun q hq => by
    have := (hk.child q c hq).2.2.1
    rw [hb.rootless] at this
    cases this
  have hchildhave : (h'.session c).haveParentSession = true := by
    exact Session.haveParentSession_of_kin hb.child
  have hchildparent : (h'.session c).parentSession = some p := by
    exact Session.parentSession_of_kin hb.child
  constructor
  case magic =>
    intro y hy
    by_cases hyc : y = c
    · subst hyc
      exact (Session.magic_of_kin hb.child).trans (hk.magic y hc)
    · rw [(hb.of_ne hyc).1]
      exact hk.magic y (hb.live_iff.mp hy)
  case child =>
    intro q d hd
    rw [hb.live_iff, hb.live_iff]
    rcases (hmem q d).mp hd with hd | ⟨rfl, rfl⟩
    · obtain ⟨h1, h2, h3, h4⟩ := hk.child q d hd
      have hdc : d ≠ c := by
        rintro rfl
        exact hnot q hd
      rw [(hb.of_ne hdc).2.1, (hb.of_ne hdc).2.2.1]
      exact ⟨h1, h2, h3, h4⟩
    · exact ⟨hp, hc, hchildhave, hchildparent⟩
  case finished =>
    intro q d hd
    rw [hb.finishedChildren] at hd
    obtain ⟨h1, h2, h3, h4⟩ := hk.finished q d hd
    have hdc : d ≠ c := by
      rintro rfl
      exact hk.notMem_finished hc hd
    rw [hb.live_iff, (hb.of_ne hdc).2.1, (hb.of_ne hdc).2.2.1]
    refine ⟨h1, ⟨?_, ?_, ?_⟩, h3, h4⟩
    · rw [hb.allocated, h2.allocated]
    · rw [hb.ended, h2.ended]
    · rw [(hb.of_ne hdc).1, h2.magic]
  case childNodup =>
    intro q
    by_cases hqp : q = p
    · subst hqp
      have : h'.children q = c :: h.children q := by
        exact Session.childSessionList_of_kin hb.parent
      rw [this]
      exact List.nodup_cons.mpr ⟨hnot q, hk.childNodup q⟩
    · by_cases hqc : q = c
      · subst hqc
        have : h'.children q = h.children q := by
          exact (Session.childSessionList_of_kin hb.child :)
        rw [this]
        exact hk.childNodup q
      · have : h'.children q = h.children q :=
          congrArg (fun d : SessionCell => d.session.childSessionList) (hb.other q hqc hqp)
        rw [this]
        exact hk.childNodup q
  case finishedNodup =>
    intro q
    rw [hb.finishedChildren]
    exact hk.finishedNodup q
  case apart =>
    intro q hq
    rcases (hmem q q).mp hq with hq | ⟨rfl, heq⟩
    · exact hk.apart q hq
    · exact hb.ne heq.symm
  case parent =>
    intro d q hd hpar
    by_cases hdc : d = c
    · subst hdc
      rw [hchildparent] at hpar
      cases hpar
      exact ⟨hchildhave, (hmem p d).mpr (Or.inr ⟨rfl, rfl⟩)⟩
    · rw [(hb.of_ne hdc).2.2.1] at hpar
      rw [(hb.of_ne hdc).2.1]
      obtain ⟨h1, h2⟩ := hk.parent d q (hb.live_iff.mp hd) hpar
      exact ⟨h1, (hmem q d).mpr (Or.inl h2)⟩
  case rootless =>
    intro d hd hh
    by_cases hdc : d = c
    · subst hdc
      rw [hchildhave] at hh
      cases hh
    · rw [(hb.of_ne hdc).2.1] at hh
      rw [(hb.of_ne hdc).2.2.2]
      exact hk.rootless d (hb.live_iff.mp hd) hh
  case retired =>
    intro d ha he
    rw [hb.allocated] at ha
    rw [hb.ended] at he
    obtain ⟨q, hq⟩ := hk.retired d ha he
    exact ⟨q, by rw [hb.finishedChildren]; exact hq⟩

theorem Bundled.allTidy {cb : Nat} (ht : AllTidy h) (hb : Bundled h h' p c cb) : AllTidy h' :=
  fun y hy => (hb.control y).tidy (ht y (hb.live_iff.mp hy))

/-! ## `esq_execute_session_done_cb` -/

structure Collected (h h' : Heap) (p : Nat) : Prop where
  cell : ∀ y, h'.cell y = if y = p then
    (h.cell p).withSession fun s => { s with finishedChildSessionList := [] } else h.cell y
  allocated : ∀ y, h'.allocated y = if y ∈ h.finishedChildren p then false else h.allocated y
  ended : h'.ended = h.ended
  log : h'.log = h.log ++ (h.finishedChildren p).flatMap h.farewell

theorem Heap.collectChildren_spec {ps : List Nat} (hn : ps.Nodup) (h : Heap)
    (hr : h.collectChildren ps = .ok h') : h'.cell = h.cell
      ∧ (∀ y, h'.allocated y = if y ∈ ps then false else h.allocated y)
      ∧ h'.ended = h.ended ∧ h'.log = h.log ++ ps.flatMap h.farewell := by
  induction ps generalizing h with
  | nil =>
    cases hr
    exact ⟨rfl, fun _ => rfl, rfl, (List.append_nil _).symm⟩
  | cons q ps ih =>
    obtain ⟨hq, hn⟩ := List.nodup_cons.mp hn
    rw [Heap.collectChildren] at hr
    split at hr
    · obtain ⟨hcell, hall, hend, hlog⟩ := ih hn _ hr
      have hsame : ((h.callDone q).release q).cell = h.cell := funext fun y => Heap.cell_callDone y
      refine ⟨hcell.trans hsame, fun y => ?_, ?_, ?_⟩
      · rw [hall]
        show (if y ∈ ps then false else Function.update (h.callDone q).allocated q false y) = _
        rw [Heap.allocated_callDone]
        by_cases hy : y = q
        · subst hy
          rw [if_neg hq, if_pos List.mem_cons_self, Function.update_self]
        · rw [Function.update_of_ne hy]
          simp only [List.mem_cons, hy, false_or]
      · exact hend.trans Heap.ended_callDone
      · rw [hlog, Heap.log_callDone_release, List.flatMap_cons, List.append_assoc]
        congr 2
        refine List.flatMap_congr fun d _ => ?_
        unfold Heap.farewell Heap.session
        rw [hsame]
    · cases hr

theorem Kindred.collected (hk : Kindred h) (hr : h.esqExecuteSessionDoneCb p = .ok h') :
    Collected h h' p := by
  unfold Heap.esqExecuteSessionDoneCb at hr
  split at hr
  · obtain ⟨u, hu, hr⟩ := bind_eq_ok.mp hr
    cases hr
    obtain ⟨hcell, hall, hend, hlog⟩ := Heap.collectChildren_spec (hk.finishedNodup p) h hu
    refine ⟨fun y => ?_, hall, hend, hlog⟩
    rw [Heap.cell_modify, hcell]
  · cases hr

theorem Collected.live_iff (hk : Kindred h) (hc : Collected h h' p) : h'.Live y ↔ h.Live y := by
  unfold Heap.Live
  rw [hc.allocated, hc.ended]
  constructor
  · rintro ⟨ha, he⟩
    split at ha
    · cases ha
    · exact ⟨ha, he⟩
  · rintro ⟨ha, he⟩
    rw [if_neg (hk.notMem_finished ⟨ha, he⟩)]
    exact ⟨ha, he⟩

theorem Collected.kin (hc : Collected h h' p) (y : Nat) : (h'.session y).kin = { (h.session y).kin with
    finishedChildSessionList := if y = p then [] else h.finishedChildren y } := by
  unfold Heap.session
  rw [hc.cell]
  by_cases hy : y = p
  · subst hy
    rw [if_pos rfl, if_pos rfl]
    rfl
  · rw [if_neg hy, if_neg hy]
    rfl

theorem Collected.control (hc : Collected h h' p) (y : Nat) :
    SameControl (h.cell y) (h'.cell y) := by
  rw [hc.cell]
  split
  next hy =>
    subst hy
    exact SessionCell.control_withSession rfl rfl
  · exact SameControl.refl _

theorem Collected.fields (hc : Collected h h' p) (y : Nat) :
    (h'.session y).magic = (h.session y).magic
      ∧ (h'.session y).haveParentSession = (h.session y).haveParentSession
      ∧ (h'.session y).parentSession = (h.session y).parentSession
      ∧ (h'.session y).sessionDoneCb = (h.session y).sessionDoneCb
      ∧ h'.children y = h.children y
      ∧ h'.finishedChildren y = if y = p then [] else h.finishedChildren y := by
  have hkin := hc.kin y
  refine ⟨?_, ?_, ?_, ?_, ?_, ?_⟩
  · exact (Session.magic_of_kin hkin :)
  · exact (Session.haveParentSession_of_kin hkin :)
  · exact (Session.parentSession_of_kin hkin :)
  · exact (Session.sessionDoneCb_of_kin hkin :)
  · exact (Session.childSessionList_of_kin hkin :)
  · exact Session.finishedChildSessionList_of_kin hkin

/-- **親が終わった子を引き取ることは、親子の不変量を保つ。** -/
theorem Collected.kindred (hk : Kindred h) (hc : Collected h h' p) : Kindred h' := by
  have hlive : ∀ y, h'.Live y ↔ h.Live y := fun y => hc.live_iff hk
  constructor
  case magic =>
    intro y hy
    rw [(hc.fields y).1]
    exact hk.magic y ((hlive y).mp hy)
  case child =>
    intro q d hd
    rw [(hc.fields q).2.2.2.2.1] at hd
    rw [hlive, hlive, (hc.fields d).2.1, (hc.fields d).2.2.1]
    exact hk.child q d hd
  case finished =>
    intro q d hd
    rw [(hc.fields q).2.2.2.2.2] at hd
    split at hd
    · cases hd
    next hqp =>
      obtain ⟨h1, h2, h3, h4⟩ := hk.finished q d hd
      have hdp : d ∉ h.finishedChildren p := by
        intro hdp
        exact hqp (hk.finished_parent_eq hdp h4)
      rw [hlive, (hc.fields d).2.1, (hc.fields d).2.2.1]
      refine ⟨h1, ⟨?_, ?_, ?_⟩, h3, h4⟩
      · rw [hc.allocated, if_neg hdp, h2.allocated]
      · rw [hc.ended, h2.ended]
      · rw [(hc.fields d).1, h2.magic]
  case childNodup =>
    intro q
    rw [(hc.fields q).2.2.2.2.1]
    exact hk.childNodup q
  case finishedNodup =>
    intro q
    rw [(hc.fields q).2.2.2.2.2]
    split
    · exact List.nodup_nil
    · exact hk.finishedNodup q
  case apart =>
    intro q
    rw [(hc.fields q).2.2.2.2.1]
    exact hk.apart q
  case parent =>
    intro d q hd hpar
    rw [(hc.fields d).2.2.1] at hpar
    rw [(hc.fields d).2.1, (hc.fields q).2.2.2.2.1]
    exact hk.parent d q ((hlive d).mp hd) hpar
  case rootless =>
    intro d hd hh
    rw [(hc.fields d).2.1] at hh
    rw [(hc.fields d).2.2.2.1]
    exact hk.rootless d ((hlive d).mp hd) hh
  case retired =>
    intro d ha he
    rw [hc.allocated] at ha
    split at ha
    · cases ha
    next hdp =>
      rw [hc.ended] at he
      obtain ⟨q, hq⟩ := hk.retired d ha he
      refine ⟨q, ?_⟩
      rw [(hc.fields q).2.2.2.2.2, if_neg]
      · exact hq
      · rintro rfl
        exact hdp hq

theorem Collected.allTidy (hk : Kindred h) (ht : AllTidy h) (hc : Collected h h' p) :
    AllTidy h' := fun y hy => (hc.control y).tidy (ht y ((hc.live_iff hk).mp hy))

end

end Esq
