import Esq.Session.Lists
import Esq.Session.Kin

/-!
# session はその状態が名指す list にいる

一つの worker の実行全体について次を示す（`membership_run`）。

* どの session も `Session.place` の名指す list にだけいる
* `DOUBLE_LL_LEFT` は、session が本当にいる list に当てられる
* すべての双方向の list は、head・tail・prev・next が互いに合っていて、重複が無い

解放は親子を通じて他の session に及ぶ。親は解放のとき、終わった子（`Session.Retired`）の
magic を消し、子は終わると親に `ACTION_NOTIFY_EVENT` を送る。そこで親子の記録が
食い違わないこと（`Kin`）も合わせて保つ。
-/

namespace Esq

open Infra

/-! ## 親子 -/

/-- 親の list にいる子は、その親を指している。終わった子は、もう list に入らない。 -/
structure Kin (f : Nat → Session) : Prop where
  children : ∀ p, ∀ x ∈ (f p).childSessionList,
    (f x).magic = true ∧ (f x).parentSession = some p
  finished : ∀ p, ∀ x ∈ (f p).finishedChildSessionList,
    (f x).magic = true ∧ (f x).parentSession = some p ∧ (f x).Retired
  rootless : ∀ x, (f x).haveParentSession = false → (f x).parentSession = none

structure SameKin (s t : Session) : Prop where
  magic : t.magic = s.magic
  have_parent : t.haveParentSession = s.haveParentSession
  parent : t.parentSession = s.parentSession
  children : t.childSessionList = s.childSessionList
  finished : t.finishedChildSessionList = s.finishedChildSessionList

theorem SameKin.of_kin {s t : Session} (h : t.kin = s.kin) : SameKin s t where
  magic := (congrArg Session.magic h :)
  have_parent := (congrArg Session.haveParentSession h :)
  parent := (congrArg Session.parentSession h :)
  children := (congrArg Session.childSessionList h :)
  finished := (congrArg Session.finishedChildSessionList h :)

theorem SameKin.refl (s : Session) : SameKin s s := ⟨rfl, rfl, rfl, rfl, rfl⟩

theorem SameKin.trans {s t u : Session} (h : SameKin s t) (h' : SameKin t u) : SameKin s u where
  magic := h'.magic.trans h.magic
  have_parent := h'.have_parent.trans h.have_parent
  parent := h'.parent.trans h.parent
  children := h'.children.trans h.children
  finished := h'.finished.trans h.finished

theorem sameKin_ready (s : Session) : SameKin s s.ready := ⟨rfl, rfl, rfl, rfl, rfl⟩

theorem sameKin_restart (s : Session) : SameKin s ({ s with lc := .start } : Session).ready :=
  ⟨rfl, rfl, rfl, rfl, rfl⟩

section

variable {f : Nat → Session} {s t : Session} {x : Nat} {p : PtRun} {os : Int} {action : Action}

theorem Kin.update (h : Kin f) (hk : SameKin (f x) t) (hr : (f x).Retired → t.Retired) :
    Kin (Function.update f x t) := by
  have hat : ∀ y, SameKin (f y) (Function.update f x t y) := by
    intro y
    by_cases hy : y = x
    · subst hy
      rw [Function.update_self]
      exact hk
    · rw [Function.update_of_ne hy]
      exact .refl _
  refine ⟨fun q y hy => ?_, fun q y hy => ?_, fun y hy => ?_⟩
  · rw [(hat q).children] at hy
    rw [(hat y).magic, (hat y).parent]
    exact h.children q y hy
  · rw [(hat q).finished] at hy
    obtain ⟨hm, hp, hret⟩ := h.finished q y hy
    rw [(hat y).magic, (hat y).parent]
    refine ⟨hm, hp, ?_⟩
    by_cases hyx : y = x
    · subst hyx
      rw [Function.update_self]
      exact hr hret
    · rw [Function.update_of_ne hyx]
      exact hret
  · rw [(hat y).have_parent] at hy
    rw [(hat y).parent]
    exact h.rootless y hy

theorem Session.Retired.place_eq (h : s.Retired) : s.place = .nowhere := by
  unfold Session.place
  rcases h with ⟨ht, hl⟩ | ⟨ht, hl | ⟨hl, -⟩⟩ | ⟨ht, hl⟩ <;> simp [ht, hl, Lc.place]

theorem Kin.notMem_of_rootless (h : Kin f) (hpar : (f x).parentSession = none) (p : Nat) :
    x ∉ (f p).childSessionList ∧ x ∉ (f p).finishedChildSessionList := by
  refine ⟨fun hm => ?_, fun hm => ?_⟩
  · have := (h.children p x hm).2
    simp [hpar] at this
  · have := (h.finished p x hm).2.1
    simp [hpar] at this

theorem Kin.replace (h : Kin f)
    (hx : ∀ p, x ∉ (f p).childSessionList ∧ x ∉ (f p).finishedChildSessionList)
    (hc : t.childSessionList = (f x).childSessionList)
    (hf : t.finishedChildSessionList = (f x).finishedChildSessionList)
    (hr : t.haveParentSession = false → t.parentSession = none) :
    Kin (Function.update f x t) := by
  have hsame : ∀ p, (Function.update f x t p).childSessionList = (f p).childSessionList ∧
      (Function.update f x t p).finishedChildSessionList = (f p).finishedChildSessionList := by
    intro p
    by_cases hp : p = x
    · subst hp
      rw [Function.update_self]
      exact ⟨hc, hf⟩
    · rw [Function.update_of_ne hp]
      exact ⟨rfl, rfl⟩
  refine ⟨fun p y hy => ?_, fun p y hy => ?_, fun y hy => ?_⟩
  · rw [(hsame p).1] at hy
    have hyx : y ≠ x := fun he => (hx p).1 (he ▸ hy)
    rw [Function.update_of_ne hyx]
    exact h.children p y hy
  · rw [(hsame p).2] at hy
    have hyx : y ≠ x := fun he => (hx p).2 (he ▸ hy)
    rw [Function.update_of_ne hyx]
    exact h.finished p y hy
  · by_cases hyx : y = x
    · subst hyx
      rw [Function.update_self] at hy ⊢
      exact hr hy
    · rw [Function.update_of_ne hyx] at hy ⊢
      exact h.rootless y hy

theorem Kin.addMember (h : Kin f) {c : Nat} (hk : t.magic = (f x).magic)
    (hh : t.haveParentSession = (f x).haveParentSession)
    (hp : t.parentSession = (f x).parentSession) (hr : (f x).Retired → t.Retired)
    (hc : ∀ y ∈ t.childSessionList, y = c ∧ (f c).magic = true ∧ (f c).parentSession = some x ∨
      y ∈ (f x).childSessionList)
    (hf : ∀ y ∈ t.finishedChildSessionList,
      y = c ∧ (f c).magic = true ∧ (f c).parentSession = some x ∧ (f c).Retired ∨
      y ∈ (f x).finishedChildSessionList) :
    Kin (Function.update f x t) := by
  have hat : ∀ y, (Function.update f x t y).magic = (f y).magic ∧
      (Function.update f x t y).parentSession = (f y).parentSession ∧
      (Function.update f x t y).haveParentSession = (f y).haveParentSession ∧
      ((f y).Retired → (Function.update f x t y).Retired) := by
    intro y
    by_cases hy : y = x
    · subst hy
      rw [Function.update_self]
      exact ⟨hk, hp, hh, hr⟩
    · rw [Function.update_of_ne hy]
      exact ⟨rfl, rfl, rfl, fun h => h⟩
  refine ⟨fun p y hy => ?_, fun p y hy => ?_, fun y hy => ?_⟩
  · rw [(hat y).1, (hat y).2.1]
    by_cases hpx : p = x
    · subst hpx
      rw [Function.update_self] at hy
      rcases hc y hy with ⟨rfl, hm, hpar⟩ | hy
      · exact ⟨hm, hpar⟩
      · exact h.children p y hy
    · rw [Function.update_of_ne hpx] at hy
      exact h.children p y hy
  · rw [(hat y).1, (hat y).2.1]
    have hold : (f y).magic = true ∧ (f y).parentSession = some p ∧ (f y).Retired := by
      by_cases hpx : p = x
      · subst hpx
        rw [Function.update_self] at hy
        rcases hf y hy with ⟨rfl, hm, hpar, hret⟩ | hy
        · exact ⟨hm, hpar, hret⟩
        · exact h.finished p y hy
      · rw [Function.update_of_ne hpx] at hy
        exact h.finished p y hy
    exact ⟨hold.1, hold.2.1, (hat y).2.2.2 hold.2.2⟩
  · rw [(hat y).2.2.1] at hy
    rw [(hat y).2.1]
    exact h.rootless y hy

/-! ## 状態機械の一歩と親子 -/

theorem Session.step_sameKin (h : s.step action os = .ok p)
    (hset : ∀ q cb, action ≠ .setParent q cb) (hadd : ∀ c, action ≠ .addChild c) :
    SameKin s p.session :=
  .of_kin (Session.step_kin h ⟨hset, hadd⟩)

theorem Session.Retired.step (hr : s.Retired) (hp : s.postOp = popNoOp)
    (h : s.step action os = .ok p) :
    p.session.Retired ∧ (p.session.postOp = popNoOp ∨ p.session.postOp = popFreeSession) := by
  unfold Session.step at h
  rcases hr with ⟨ht, hl⟩ | ⟨ht, hl | ⟨hl, hfd⟩⟩ | ⟨ht, hl⟩
  · simp [ht, esqPtOfSingleShotSocket, hl] at h
  · simp [ht, esqPtOfMultiShotSocket, hl] at h
  · -- fd が 0 の multi shot は、active にも時間の list にも戻らない
    simp only [ht, esqPtOfMultiShotSocket, hl, MultiShot.executeCb, hfd] at h
    split at h
    · simp only [ne_eq, not_true_eq_false, if_false] at h
      cases h
      exact ⟨Or.inr (Or.inl ⟨ht, Or.inr ⟨hl, hfd⟩⟩), Or.inr rfl⟩
    · rw [if_neg (by simp [fdNeedInstall])] at h
      cases h
      exact ⟨Or.inr (Or.inl ⟨ht, Or.inr ⟨rfl, rfl⟩⟩), Or.inl rfl⟩
    · cases h
      exact ⟨Or.inr (Or.inl ⟨ht, Or.inr ⟨rfl, hfd⟩⟩), Or.inl rfl⟩
    · cases h
      exact ⟨Or.inr (Or.inl ⟨ht, Or.inr ⟨rfl, hfd⟩⟩), Or.inl rfl⟩
    · cases h
  · simp only [ht] at h
    cases h
    exact ⟨Or.inr (Or.inr ⟨ht, hl⟩), Or.inl hp⟩

theorem Session.step_notifyEvent {bits : Nat} (hp : s.postOp = popNoOp)
    (h : s.step (.notifyEvent bits) os = .ok p) : p.session.postOp = popNoOp := by
  unfold Session.step at h
  split at h
  · cases h
  · cases h
  · unfold esqPtOfSingleShotSocket at h
    split at h <;> cases h <;> first | rfl | exact hp
  · unfold esqPtOfMultiShotSocket at h
    split at h <;> cases h <;> first | rfl | exact hp
  · cases h
    exact hp
  · cases h
    exact hp

theorem Session.step_setParent {q cb : Nat} (hf : s.isForeign = false) (hwf : s.WF)
    (h : s.step (.setParent q cb) os = .ok p) :
    s.haveParentSession = false ∧
      p = { session := { s with
        haveParentSession := true, sessionDoneCb := cb, parentSession := some q,
        postOp := popNoOp, lc := .single .initial } } := by
  unfold Session.step at h
  cases ht : s.sessionType with
  | new => simp [ht, esqPtOfNoFd] at h
  | noFd => simp [ht, esqPtOfNoFd] at h
  | mco => simp [Session.isForeign, ht] at hf
  | waitForHashLock => simp [Session.isForeign, ht] at hf
  | multiSocketCb =>
    obtain ⟨⟨l, hl⟩, -, -⟩ := hwf.multi ht
    simp only [ht, esqPtOfMultiShotSocket, hl] at h
    cases l <;> cases h
  | socketCb =>
    obtain ⟨l, hl⟩ := hwf.single ht
    simp only [ht, esqPtOfSingleShotSocket, hl] at h
    cases l with
    | initial =>
      simp only [SingleShot.initial] at h
      split at h
      · cases h
      · next hn =>
        cases h
        refine ⟨by simpa using hn, ?_⟩
        rw [← ht]
        rfl
    | _ => cases h

theorem Session.step_addChild {c : Nat} (hf : s.isForeign = false) (hwf : s.WF)
    (h : s.step (.addChild c) os = .ok p) :
    s.lc = .single .executeCb ∧
      p = { session := { s with
        childSessionList := c :: s.childSessionList, postOp := popNoOp,
        lc := .single .executeCb } } := by
  unfold Session.step at h
  cases ht : s.sessionType with
  | new => simp [ht, esqPtOfNoFd] at h
  | noFd => simp [ht, esqPtOfNoFd] at h
  | mco => simp [Session.isForeign, ht] at hf
  | waitForHashLock => simp [Session.isForeign, ht] at hf
  | multiSocketCb =>
    obtain ⟨⟨l, hl⟩, -, -⟩ := hwf.multi ht
    simp only [ht, esqPtOfMultiShotSocket, hl] at h
    cases l <;> cases h
  | socketCb =>
    obtain ⟨l, hl⟩ := hwf.single ht
    simp only [ht, esqPtOfSingleShotSocket, hl] at h
    cases l with
    | executeCb =>
      cases h
      refine ⟨hl, ?_⟩
      rw [← ht]
      rfl
    | _ => cases h

end

/-! ## 不変量 -/

/-- どの session も状態が名指す list にいて、欄が揃い、親子の記録が合っている。 -/
structure WorkerInv (w : Worker) (m : WorkerList → List Nat) (n : NewList → List Nat) : Prop
    extends ListInv w m n where
  place : ∀ x, At m n x (w.session x).place
  wf : ∀ x, (w.session x).WF
  kin : Kin w.session

/-- action を受けている session `x` の他は、不変量を満たしている。 -/
structure Acting (w : Worker) (m : WorkerList → List Nat) (n : NewList → List Nat) (x : Nat) :
    Prop extends ListInv w m n where
  place : ∀ y, y ≠ x → At m n y (w.session y).place
  wf : ∀ y, y ≠ x → (w.session y).WF

section

variable {w w' : Worker} {m m' : WorkerList → List Nat} {n n' : NewList → List Nat} {x : Nat}
  {os : Int} {action : Action}

theorem At.anywhere_or {q r : Place} (h : At m n x q) (hr : r = q ∨ r = .anywhere) :
    At m n x r := by
  rcases hr with rfl | rfl
  · exact h
  · trivial

theorem WorkerInv.acting (h : WorkerInv w m n) (x : Nat) : Acting w m n x :=
  ⟨h.toListInv, fun y _ => h.place y, fun y _ => h.wf y⟩

theorem Acting.close (h : Acting w m n x) (hat : At m n x (w.session x).place)
    (hwf : (w.session x).WF) (hkin : Kin w.session) : WorkerInv w m n := by
  refine ⟨h.toListInv, fun y => ?_, fun y => ?_, hkin⟩
  · by_cases hy : y = x
    · exact hy ▸ hat
    · exact h.place y hy
  · by_cases hy : y = x
    · exact hy ▸ hwf
    · exact h.wf y hy

theorem WorkerInv.setSession {s : Session} (h : WorkerInv w m n) (hat : At m n x s.place)
    (hwf : s.WF) (hkin : Kin (Function.update w.session x s)) :
    WorkerInv (w.setSession x s) m n := by
  refine Acting.close (x := x) ⟨h.toListInv.setSession _, fun y hy => ?_, fun y hy => ?_⟩ ?_ ?_ hkin
  · rw [show (w.setSession x s).session y = w.session y from Function.update_of_ne hy _ _]
    exact h.place y
  · rw [show (w.setSession x s).session y = w.session y from Function.update_of_ne hy _ _]
    exact h.wf y
  · rw [show (w.setSession x s).session x = s from Function.update_self ..]
    exact hat
  · rw [show (w.setSession x s).session x = s from Function.update_self ..]
    exact hwf

theorem Acting.transfer (h : Acting w m n x) (hl : ListInv w' m' n') (ho : Others m m' n n' x)
    (hs : ∀ y, y ≠ x → w'.session y = w.session y) : Acting w' m' n' x := by
  refine ⟨hl, fun y hy => ?_, fun y hy => ?_⟩
  · rw [hs y hy]
    exact ho y hy _ (h.place y hy)
  · rw [hs y hy]
    exact h.wf y hy

theorem Acting.execEffects {p : PtRun} {before q : Place} (h : Acting w m n x)
    (hat : At m n x before) (hq : before.moves p.effects = some q) :
    ∃ m', Acting ((w.setSession x p.session).execEffects x p.effects) m' n x ∧ At m' n x q := by
  obtain ⟨m', hl, hat', ho⟩ :=
    ListInv.execEffects p.effects (h.toListInv.setSession (x := x) p.session) hat hq
  refine ⟨m', h.transfer hl ho fun y hy => ?_, hat'⟩
  rw [execEffects_session]
  exact Function.update_of_ne hy _ _

theorem Acting.stay {p : PtRun} {before q : Place} (h : Acting w m n x) (hat : At m n x before)
    (hq : before.moves p.effects = some q) (hwf : p.session.WF)
    (hplace : p.session.place = q ∨ p.session.place = .anywhere)
    (hkin : Kin (Function.update w.session x p.session)) :
    ∃ m', WorkerInv ((w.setSession x p.session).execEffects x p.effects) m' n := by
  obtain ⟨m', hact, hat'⟩ := h.execEffects hat hq
  have hsess : ((w.setSession x p.session).execEffects x p.effects).session
      = Function.update w.session x p.session := execEffects_session _ _
  refine ⟨m', hact.close ?_ ?_ ?_⟩
  · rw [hsess, Function.update_self]
    exact hat'.anywhere_or hplace
  · rw [hsess, Function.update_self]
    exact hwf
  · rw [hsess]
    exact hkin

theorem dispatch_outcome (hm : (w.session x).magic = true) (hwf : (w.session x).WF)
    (hd : w.dispatch x action os = .ok w') :
    ∃ p, (w.session x).ready.step action os = .ok p ∧
      w' = (w.setSession x p.session).execEffects x p.effects ∧
      Outcome ((w.session x).placeBefore action) p := by
  unfold Worker.dispatch at hd
  obtain ⟨p, hp, hw'⟩ := bind_eq_ok.mp hd
  cases hw'
  exact ⟨p, hp, rfl, Session.step_outcome (s := (w.session x).ready) hm
    ⟨hwf.new, hwf.single, hwf.multi, hwf.removed⟩ rfl hp⟩

/-! ## 解放 -/

theorem foldl_orphan_session : ∀ (xs : List Nat) (w : Worker) (y : Nat),
    (xs.foldl Worker.orphan w).session y
      = if y ∈ xs then { w.session y with parentSession := none } else w.session y
  | [], w, y => by simp
  | x :: xs, w, y => by
    rw [List.foldl_cons, foldl_orphan_session xs]
    by_cases hx : y = x
    · subst hx
      simp [Worker.orphan, Worker.setSession]
    · simp [Worker.orphan, Worker.setSession, hx]

theorem foldl_discard_session : ∀ (xs : List Nat) (w : Worker) (y : Nat),
    (xs.foldl Worker.discard w).session y
      = if y ∈ xs then { w.session y with parentSession := none, magic := false }
        else w.session y
  | [], w, y => by simp
  | x :: xs, w, y => by
    rw [List.foldl_cons, foldl_discard_session xs]
    by_cases hx : y = x
    · subst hx
      simp [Worker.discard, Worker.setSession]
    · simp [Worker.discard, Worker.setSession, hx]

def SameLists (w w' : Worker) : Prop :=
  w'.links = w.links ∧ w'.ends = w.ends ∧ w'.newEnds = w.newEnds ∧ w'.lefts = w.lefts

theorem ListInv.sameLists (h : ListInv w m n) (hs : SameLists w w') : ListInv w' m n := by
  obtain ⟨h1, h2, h3, h4⟩ := hs
  constructor
  · rw [h1, h2]
    exact h.lists
  · rw [h1, h3]
    exact h.news
  · rw [h3]
    exact h.newTail
  · exact h.apart
  · rw [h4]
    exact h.lefts

theorem foldl_sameLists {f : Worker → Nat → Worker} (hf : ∀ w x, SameLists w (f w x)) :
    ∀ (xs : List Nat) (w : Worker), SameLists w (xs.foldl f w)
  | [], _ => ⟨rfl, rfl, rfl, rfl⟩
  | x :: xs, w => by
    obtain ⟨h1, h2, h3, h4⟩ := foldl_sameLists hf xs (f w x)
    obtain ⟨g1, g2, g3, g4⟩ := hf w x
    exact ⟨h1.trans g1, h2.trans g2, h3.trans g3, h4.trans g4⟩

theorem esqUnhookChildSession_session (w : Worker) (x y : Nat) :
    (esqUnhookChildSession w x).session y =
      let s := w.session y
      let s := if y ∈ (w.session x).childSessionList then { s with parentSession := none } else s
      let s := if y ∈ (w.session x).finishedChildSessionList then
        { s with parentSession := none, magic := false } else s
      if y = x then { s with childSessionList := [], finishedChildSessionList := [] } else s := by
  unfold esqUnhookChildSession
  simp only [Worker.setSession]
  by_cases hy : y = x
  · subst hy
    rw [Function.update_self, if_pos rfl, foldl_discard_session, foldl_orphan_session]
  · rw [Function.update_of_ne hy, if_neg hy, foldl_discard_session, foldl_orphan_session]

theorem esqUnhookChildSession_sameLists (w : Worker) (x : Nat) :
    SameLists w (esqUnhookChildSession w x) := by
  have h1 := foldl_sameLists (f := Worker.orphan) (fun _ _ => ⟨rfl, rfl, rfl, rfl⟩)
    (w.session x).childSessionList w
  have h2 := foldl_sameLists (f := Worker.discard) (fun _ _ => ⟨rfl, rfl, rfl, rfl⟩)
    (w.session x).finishedChildSessionList
    ((w.session x).childSessionList.foldl Worker.orphan w)
  exact ⟨h2.1.trans h1.1, h2.2.1.trans h1.2.1, h2.2.2.1.trans h1.2.2.1, h2.2.2.2.trans h1.2.2.2⟩

/-- 欄の揃いも、いる所も、終わったことも同じである。 -/
structure SameState (s t : Session) : Prop where
  place : t.place = s.place
  wf : s.WF → t.WF
  retired : s.Retired → t.Retired
  have_parent : t.haveParentSession = s.haveParentSession

theorem esqUnhookChildSession_sameState (hkin : Kin w.session) (x y : Nat) :
    SameState (w.session y) ((esqUnhookChildSession w x).session y) := by
  rw [esqUnhookChildSession_session]
  by_cases hfin : y ∈ (w.session x).finishedChildSessionList
  · have hret := (hkin.finished x y hfin).2.2
    refine ⟨?_, fun hwf => ?_, fun hr => ?_, ?_⟩
    · rw [hret.place_eq]
      simp only [if_pos hfin]
      split <;> split <;> rfl
    · simp only [if_pos hfin]
      split <;> split <;> exact ⟨hwf.new, hwf.single, hwf.multi, hwf.removed⟩
    · simp only [if_pos hfin]
      split <;> split <;> exact hr
    · simp only [if_pos hfin]
      split <;> split <;> rfl
  · simp only [if_neg hfin]
    refine ⟨?_, fun hwf => ?_, fun hr => ?_, ?_⟩
    · split <;> split <;> rfl
    · split <;> split <;> exact ⟨hwf.new, hwf.single, hwf.multi, hwf.removed⟩
    · split <;> split <;> exact hr
    · split <;> split <;> rfl

theorem esqUnhookChildSession_lists (w : Worker) (x p : Nat) :
    ((esqUnhookChildSession w x).session p).childSessionList
        = (if p = x then [] else (w.session p).childSessionList) ∧
      ((esqUnhookChildSession w x).session p).finishedChildSessionList
        = (if p = x then [] else (w.session p).finishedChildSessionList) := by
  rw [esqUnhookChildSession_session]
  constructor <;> (simp only; split <;> split <;> split <;> rfl)

theorem esqUnhookChildSession_of_parent (hkin : Kin w.session) {x y p : Nat} (hp : p ≠ x)
    (hy : (w.session y).parentSession = some p) :
    ((esqUnhookChildSession w x).session y).magic = (w.session y).magic ∧
      ((esqUnhookChildSession w x).session y).parentSession = (w.session y).parentSession := by
  have hc : y ∉ (w.session x).childSessionList := fun hm => by
    have := (hkin.children x y hm).2
    rw [hy] at this
    exact hp (Option.some.inj this)
  have hf : y ∉ (w.session x).finishedChildSessionList := fun hm => by
    have := (hkin.finished x y hm).2.1
    rw [hy] at this
    exact hp (Option.some.inj this)
  rw [esqUnhookChildSession_session]
  simp only [if_neg hc, if_neg hf]
  split <;> exact ⟨rfl, rfl⟩

theorem esqUnhookChildSession_kin (hkin : Kin w.session) (x : Nat) :
    Kin (esqUnhookChildSession w x).session := by
  refine ⟨fun p y hy => ?_, fun p y hy => ?_, fun y hy => ?_⟩
  · rw [(esqUnhookChildSession_lists w x p).1] at hy
    split at hy
    · simp at hy
    · next hp =>
      obtain ⟨hm, hpar⟩ := hkin.children p y hy
      obtain ⟨h1, h2⟩ := esqUnhookChildSession_of_parent hkin hp hpar
      rw [h1, h2]
      exact ⟨hm, hpar⟩
  · rw [(esqUnhookChildSession_lists w x p).2] at hy
    split at hy
    · simp at hy
    · next hp =>
      obtain ⟨hm, hpar, hret⟩ := hkin.finished p y hy
      obtain ⟨h1, h2⟩ := esqUnhookChildSession_of_parent hkin hp hpar
      rw [h1, h2]
      exact ⟨hm, hpar, (esqUnhookChildSession_sameState hkin x y).retired hret⟩
  · rw [(esqUnhookChildSession_sameState hkin x y).have_parent] at hy
    have hnone := hkin.rootless y hy
    rw [esqUnhookChildSession_session]
    simp only
    split <;> split <;> split <;> first | rfl | exact hnone

theorem esqUnhookChildSession_inv (h : WorkerInv w m n) (x : Nat) :
    WorkerInv (esqUnhookChildSession w x) m n := by
  refine ⟨h.toListInv.sameLists (esqUnhookChildSession_sameLists w x), fun y => ?_, fun y => ?_,
    esqUnhookChildSession_kin h.kin x⟩
  · rw [(esqUnhookChildSession_sameState h.kin x y).place]
    exact h.place y
  · exact (esqUnhookChildSession_sameState h.kin x y).wf (h.wf y)

theorem WorkerInv.discard (h : WorkerInv w m n) (hplace : (w.session x).place = .nowhere)
    (hpar : (w.session x).parentSession = none) :
    WorkerInv (w.setSession x { w.session x with magic := false }) m n := by
  have hwf := h.wf x
  have hat := h.place x
  rw [hplace] at hat
  refine h.setSession hat ⟨hwf.new, hwf.single, hwf.multi, hwf.removed⟩ ?_
  exact h.kin.replace (fun p => h.kin.notMem_of_rootless hpar p) rfl rfl fun _ => hpar

theorem esqMoveChildSessionIntoFinishList_inv {parent : Nat} (h : WorkerInv w m n)
    (hret : (w.session x).Retired)
    (hmove : esqMoveChildSessionIntoFinishList w parent x = .ok w') : WorkerInv w' m n := by
  simp only [esqMoveChildSessionIntoFinishList] at hmove
  split at hmove
  · next hmem =>
    cases hmove
    have hwf := h.wf parent
    have hx := h.kin.children parent x hmem
    refine h.setSession (h.place parent) ⟨hwf.new, hwf.single, hwf.multi, hwf.removed⟩ ?_
    refine h.kin.addMember (c := x) rfl rfl rfl (fun hr => hr) ?_ ?_
    · exact fun y hy => Or.inr (List.mem_of_mem_erase hy)
    · intro y hy
      rcases List.mem_cons.mp hy with rfl | hy
      · exact Or.inl ⟨rfl, hx.1, hx.2, hret⟩
      · exact Or.inr hy
  · cases hmove

theorem WorkerInv.notifyParent {parent : Nat} {bits : Nat} (h : WorkerInv w m n)
    (hm : (w.session parent).magic = true)
    (hd : w.dispatch parent (.notifyEvent bits) os = .ok w') : ∃ m', WorkerInv w' m' n := by
  have hat : At m n parent ((w.session parent).placeBefore (.notifyEvent bits)) := by
    rw [Session.placeBefore, if_neg (by simp)]
    exact h.place parent
  obtain ⟨p, hp, rfl, hout⟩ := dispatch_outcome hm (h.wf parent) hd
  have hop := Session.step_notifyEvent (s := (w.session parent).ready) rfl hp
  have hkin : Kin (Function.update w.session parent p.session) := by
    have hsame := (sameKin_ready (w.session parent)).trans
      (Session.step_sameKin hp (by simp) (by simp))
    refine h.kin.update hsame fun hr => ?_
    exact (Session.Retired.step (s := (w.session parent).ready) hr rfl hp).1
  cases hout with
  | switch hop' => simp [hop, popSwitchSessionType, popNoOp] at hop'
  | joinNew k hop' => cases k <;> simp [hop, NewList.postOp, popNoOp, popJoinLocalNewList,
      popJoinGlobalNewList] at hop'
  | free hop' => simp [hop, popFreeSession, popNoOp] at hop'
  | stay _ hwf q hq hplace => exact (h.acting parent).stay hat hq hwf hplace hkin

theorem WorkerInv.freeSession (h : WorkerInv w m n) (hplace : (w.session x).place = .nowhere)
    (hret : (w.session x).haveParentSession = true → (w.session x).Retired)
    (hf : w.freeSession x os = .ok w') : ∃ m', WorkerInv w' m' n := by
  have h1 := esqUnhookChildSession_inv h x
  have hstate := esqUnhookChildSession_sameState h.kin x x
  have hplace1 := hstate.place.trans hplace
  simp only [Worker.freeSession] at hf
  split at hf
  · next hpar =>
    have hret1 := hstate.retired (hret (hstate.have_parent ▸ hpar))
    split at hf
    · next parent hparent =>
      obtain ⟨w2, hmove, hf⟩ := bind_eq_ok.mp hf
      have h2 := esqMoveChildSessionIntoFinishList_inv h1 hret1 hmove
      split at hf
      · next hm => exact h2.notifyParent hm hf
      · cases hf
        exact ⟨m, h2⟩
    · next hnone =>
      cases hf
      exact ⟨m, h1.discard hplace1 hnone⟩
  · next hpar =>
    cases hf
    exact ⟨m, h1.discard hplace1 (h1.kin.rootless x (by simpa using hpar))⟩

/-! ## action を渡す -/

theorem Session.step_start {s : Session} {p : PtRun} (hm : s.magic = true) (hl : s.lc = .start)
    (hp : s.postOp = popNoOp)
    (ht : s.sessionType = .socketCb ∨ s.sessionType = .multiSocketCb ∨
      s.sessionType = .waitForHashLock)
    (h : s.step action os = .ok p) :
    p.effects = [] ∧ p.session.postOp = popNoOp ∧ p.session.WF ∧ SameKin s p.session ∧
      (p.session.place = .nowhere ∨ p.session.place = .anywhere) := by
  unfold Session.step at h
  rcases ht with ht | ht | ht
  · simp only [ht, esqPtOfSingleShotSocket, hl] at h
    cases h
    refine ⟨rfl, rfl, Session.wf_single ht rfl (by simp), ⟨rfl, rfl, rfl, rfl, rfl⟩, Or.inl ?_⟩
    simp [SingleShot.start, SingleShot.setParams, Session.place, Lc.place, hm, ht]
  · simp only [ht, esqPtOfMultiShotSocket, hl] at h
    cases h
    refine ⟨rfl, rfl, Session.wf_multi ht rfl rfl rfl, ⟨rfl, rfl, rfl, rfl, rfl⟩, Or.inl ?_⟩
    simp [MultiShot.start, Session.place, Lc.place, hm, ht]
  · simp only [ht] at h
    cases h
    refine ⟨rfl, hp, ⟨?_, ?_, ?_, ?_⟩, .refl s, Or.inr ?_⟩
    · simp [ht]
    · simp [ht]
    · simp [ht]
    · simp [hl]
    · simp [Session.place, hm, ht, hl]

theorem postActions_noOp (hop : (w.session x).postOp = popNoOp) :
    w.postActions x os = .ok (esqOk, w) := by
  simp [Worker.postActions, hop, hasBit, popNoOp]

/--
渡した action の後の worker。`p` は状態機械の一歩の結果である。

型を切り替えた session は、切り替え先の先頭で同じ action を受けて止まる。
-/
inductive Taken (w : Worker) (x : Nat) (action : Action) (os : Int) (p : PtRun) : Worker → Prop where
  | switch {p2 : PtRun} (hop : p.session.postOp = popSwitchSessionType) (heff : p.effects = [])
      (hbefore : (w.session x).placeBefore action = .nowhere)
      (htype : p.session.sessionType = .socketCb ∨ p.session.sessionType = .multiSocketCb ∨
        p.session.sessionType = .waitForHashLock)
      (hp2 : ({ p.session with lc := .start } : Session).ready.step action os = .ok p2) :
      Taken w x action os p (w.setSession x p2.session)
  | joinNew (k : NewList) (hop : p.session.postOp = k.postOp) (heff : p.effects = [])
      (hbefore : (w.session x).placeBefore action = .nowhere) (hwf : p.session.WF)
      (hplace : p.session.place = .newList) :
      Taken w x action os p (((w.setSession x p.session).execEffects x p.effects).joinNewList k x)
  | free {w' : Worker} (hop : p.session.postOp = popFreeSession ∨ p.session.postOp = 5)
      (hwf : p.session.WF)
      (hmoves : ((w.session x).placeBefore action).moves p.effects = some .nowhere)
      (hplace : p.session.place = .nowhere)
      (hretired : p.session.haveParentSession = true → p.session.Retired)
      (hfree : ((w.setSession x p.session).execEffects x p.effects).freeSession x os = .ok w') :
      Taken w x action os p w'
  | stay (hop : p.session.postOp = popNoOp ∨ p.session.postOp = popReturnValue)
      (hwf : p.session.WF) (q : Place)
      (hmoves : ((w.session x).placeBefore action).moves p.effects = some q)
      (hplace : p.session.place = q ∨ p.session.place = .anywhere) :
      Taken w x action os p ((w.setSession x p.session).execEffects x p.effects)

/-- **`__esq_session_take_action` が行うことは、`Taken` の四通りに尽きる。** -/
theorem esqSessionTakeAction_taken {r : Int} (hm : (w.session x).magic = true)
    (hwf : (w.session x).WF) (hset : ∀ q cb, action ≠ .setParent q cb)
    (hadd : ∀ c, action ≠ .addChild c)
    (ht : esqSessionTakeAction w x action os = .ok (r, w')) :
    ∃ p, (w.session x).ready.step action os = .ok p ∧ SameKin (w.session x) p.session ∧
      Taken w x action os p w' := by
  rw [esqSessionTakeAction, if_pos hm] at ht
  obtain ⟨w1, hd, ht⟩ := bind_eq_ok.mp ht
  obtain ⟨p, hp, rfl, hout⟩ := dispatch_outcome hm hwf hd
  have hsame := (sameKin_ready (w.session x)).trans (Session.step_sameKin hp hset hadd)
  have hnew : ((w.setSession x p.session).execEffects x p.effects).session x = p.session := by
    rw [execEffects_session]
    exact Function.update_self ..
  rw [hnew] at ht
  refine ⟨p, hp, hsame, ?_⟩
  cases hout with
  | switch hop heff hbefore htype =>
    rw [hop, if_pos (by decide)] at ht
    obtain ⟨w2, hd2, ht⟩ := bind_eq_ok.mp ht
    unfold Worker.dispatch at hd2
    obtain ⟨p2, hp2, hw2⟩ := bind_eq_ok.mp hd2
    cases hw2
    rw [Worker.setSession_self] at hp2
    obtain ⟨heff2, hop2, -⟩ := Session.step_start
      (s := ({ p.session with lc := .start } : Session).ready) (hsame.magic.trans hm) rfl rfl htype
      hp2
    have hw2 : ((((w.setSession x p.session).execEffects x p.effects).setSession x
        { p.session with lc := .start }).setSession x p2.session).execEffects x p2.effects
        = w.setSession x p2.session := by
      simp [heff, heff2, Worker.execEffects, Worker.setSession]
    rw [hw2, postActions_noOp (by rw [Worker.setSession_self]; exact hop2)] at ht
    obtain ⟨-, rfl⟩ := Prod.mk.inj (Except.ok.inj ht)
    exact .switch hop heff hbefore htype hp2
  | joinNew k hop heff hbefore hwf' hplace =>
    rw [if_neg (by rw [hop]; cases k <;> decide), Worker.postActions, hnew, hop] at ht
    have hjoin : w' = ((w.setSession x p.session).execEffects x p.effects).joinNewList k x := by
      cases k <;> exact ((Prod.mk.inj (Except.ok.inj ht)).2).symm
    rw [hjoin]
    exact .joinNew k hop heff hbefore hwf' hplace
  | free hop hwf' hq hplace hret =>
    refine .free hop hwf' hq hplace hret ?_
    rcases hop with hop | hop
    all_goals
      rw [if_neg (by rw [hop]; decide), Worker.postActions, hnew, hop, if_neg (by decide),
        if_neg (by decide), if_pos (by decide)] at ht
      obtain ⟨w2, hf, ht⟩ := bind_eq_ok.mp ht
      rw [hf, (Prod.mk.inj (Except.ok.inj ht)).2]
  | stay hop hwf' q hq hplace =>
    have hw : (w.setSession x p.session).execEffects x p.effects = w' := by
      rcases hop with hop | hop
      all_goals
        rw [if_neg (by rw [hop]; decide), Worker.postActions, hnew, hop] at ht
        exact (Prod.mk.inj (Except.ok.inj ht)).2
    rw [← hw]
    exact .stay hop hwf' q hq hplace

/-- **`ACTION_SET_PARENT` と `ACTION_ADD_CHILD` の他の action は不変量を保つ。** -/
theorem Acting.takeAction {r : Int} (h : Acting w m n x)
    (hat : At m n x ((w.session x).placeBefore action)) (hwf : (w.session x).WF)
    (hkin : Kin w.session) (hm : (w.session x).magic = true)
    (hset : ∀ q cb, action ≠ .setParent q cb) (hadd : ∀ c, action ≠ .addChild c)
    (ht : esqSessionTakeAction w x action os = .ok (r, w')) : ∃ m' n', WorkerInv w' m' n' := by
  obtain ⟨p, hp, hsame, htaken⟩ := esqSessionTakeAction_taken hm hwf hset hadd ht
  have hretired : (w.session x).Retired → p.session.Retired ∧
      (p.session.postOp = popNoOp ∨ p.session.postOp = popFreeSession) := fun hr =>
    Session.Retired.step (s := (w.session x).ready) hr rfl hp
  have hsess : ((w.setSession x p.session).execEffects x p.effects).session
      = Function.update w.session x p.session := execEffects_session _ _
  have hnew : ((w.setSession x p.session).execEffects x p.effects).session x = p.session := by
    rw [hsess, Function.update_self]
  have hkin1 : Kin (Function.update w.session x p.session) :=
    hkin.update hsame fun hr => (hretired hr).1
  cases htaken with
  | @switch p2 hop heff hbefore htype hp2 =>
    obtain ⟨-, -, hwf2, hsame2, hplace2⟩ :=
      Session.step_start (s := ({ p.session with lc := .start } : Session).ready)
        (hsame.magic.trans hm) rfl rfl htype hp2
    have hself := Worker.setSession_self w x p2.session
    rw [hbefore] at hat
    refine ⟨m, n, Acting.close (x := x)
      (h.transfer (h.toListInv.setSession _) .refl fun y hy => Function.update_of_ne hy _ _) ?_ ?_ ?_⟩
    · rw [hself]
      exact hat.anywhere_or hplace2
    · rw [hself]
      exact hwf2
    · refine hkin.update (hsame.trans ((sameKin_restart _).trans hsame2)) fun hr => ?_
      rcases (hretired hr).2 with he | he <;> rw [hop] at he <;> cases he
  | joinNew k hop heff hbefore hwf' hplace =>
    have hq : ((w.session x).placeBefore action).moves p.effects = some .nowhere := by
      rw [hbefore, heff]
      rfl
    obtain ⟨m1, hact, hat1⟩ := h.execEffects hat hq
    obtain ⟨n', hl, hat', ho⟩ := hact.toListInv.joinNewList hat1 k
    have hsessJ := joinNewList_session ((w.setSession x p.session).execEffects x p.effects) k x
    refine ⟨m1, n', Acting.close (x := x) (hact.transfer hl ho fun y _ => by rw [hsessJ]) ?_ ?_ ?_⟩
    · rw [hsessJ, hnew, hplace]
      exact hat'
    · rw [hsessJ, hnew]
      exact hwf'
    · rw [hsessJ, hsess]
      exact hkin1
  | free hop hwf' hq hplace hret hfree =>
    obtain ⟨m1, hinv⟩ := h.stay hat hq hwf' (Or.inl hplace) hkin1
    obtain ⟨m', hfin⟩ :=
      hinv.freeSession (by rw [hnew]; exact hplace) (by rw [hnew]; exact hret) hfree
    exact ⟨m', n, hfin⟩
  | stay hop hwf' q hq hplace =>
    obtain ⟨m1, hinv⟩ := h.stay hat hq hwf' hplace hkin1
    exact ⟨m1, n, hinv⟩

theorem WorkerInv.act {r : Int} (h : WorkerInv w m n) (hres : action.reserved = false)
    (ht : esqSessionTakeAction w x action os = .ok (r, w')) : ∃ m' n', WorkerInv w' m' n' := by
  by_cases hm : (w.session x).magic = true
  · have hpick : action ≠ .pickUp := by
      rintro rfl
      cases hres
    have hat : At m n x ((w.session x).placeBefore action) := by
      rw [Session.placeBefore, if_neg hpick]
      exact h.place x
    refine (h.acting x).takeAction hat (h.wf x) h.kin hm ?_ ?_ ht
    · rintro q cb rfl
      cases hres
    · rintro c rfl
      cases hres
  · rw [esqSessionTakeAction, if_neg hm] at ht
    obtain ⟨-, rfl⟩ := Prod.mk.inj (Except.ok.inj ht)
    exact ⟨m, n, h⟩

theorem WorkerInv.pickUp {k : NewList} (h : WorkerInv w m n)
    (ht : esqWorkerPickUp w k os = .ok w') : ∃ m' n', WorkerInv w' m' n' := by
  unfold esqWorkerPickUp at ht
  split at ht
  · cases ht
    exact ⟨m, n, h⟩
  · next y w1 hpop =>
    obtain ⟨⟨r, w2⟩, ht, hw⟩ := bind_eq_ok.mp ht
    cases hw
    obtain ⟨n', hl, hat, ho, hsess, hmem⟩ := h.toListInv.popNewList hpop
    have hm : (w.session y).magic = true := by
      by_contra hm
      have hplace : (w.session y).place = .nowhere := by simp [Session.place, hm]
      have := h.place y
      rw [hplace] at this
      exact this.2 k hmem
    have hact : Acting w1 m n' y := (h.acting y).transfer hl ho fun z _ => by rw [hsess]
    refine hact.takeAction (by simpa [Session.placeBefore] using hat) ?_ ?_ ?_ (by simp) (by simp)
      ht
    · rw [hsess]
      exact h.wf y
    · rw [hsess]
      exact h.kin
    · rw [hsess]
      exact hm

theorem takeAction_of_quiet {p : PtRun} (hm : (w.session x).magic = true)
    (hp : (w.session x).ready.step action os = .ok p) (heff : p.effects = [])
    (hop : p.session.postOp = popNoOp) :
    esqSessionTakeAction w x action os = .ok (esqOk, w.setSession x p.session) := by
  have hd : w.dispatch x action os = .ok (w.setSession x p.session) := by
    unfold Worker.dispatch
    rw [hp]
    simp [heff, Worker.execEffects]
  have hsess : (w.setSession x p.session).session x = p.session := Function.update_self ..
  rw [esqSessionTakeAction, if_pos hm, hd]
  simp only [ok_bind, hsess, hop]
  rw [if_neg (by decide)]
  exact postActions_noOp (by rw [hsess, hop])

theorem WorkerInv.setParent {parent cb : Nat} {r : Int} (h : WorkerInv w m n)
    (hf : (w.session x).isForeign = false) (hm : (w.session x).magic = true)
    (ht : esqSessionTakeAction w x (.setParent parent cb) os = .ok (r, w')) :
    r = esqOk ∧ WorkerInv w' m n ∧ (w'.session x).magic = true ∧
      (w'.session x).parentSession = some parent ∧ (w'.session x).isForeign = false ∧
      ∀ y, y ≠ x → w'.session y = w.session y := by
  have hd := ht
  rw [esqSessionTakeAction, if_pos hm] at hd
  obtain ⟨w1, hd, -⟩ := bind_eq_ok.mp hd
  unfold Worker.dispatch at hd
  obtain ⟨p, hp, -⟩ := bind_eq_ok.mp hd
  have hwf := h.wf x
  have hwf0 : (w.session x).ready.WF :=
    ⟨hwf.new, hwf.single, hwf.multi, hwf.removed⟩
  obtain ⟨hnopar, hp'⟩ := Session.step_setParent (s := (w.session x).ready) hf hwf0 hp
  have heff : p.effects = [] := by rw [hp']
  have hop : p.session.postOp = popNoOp := by rw [hp']
  rw [takeAction_of_quiet hm hp heff hop] at ht
  obtain ⟨rfl, rfl⟩ := Prod.mk.inj (Except.ok.inj ht)
  have hx : (w.setSession x p.session).session x = p.session := Function.update_self ..
  have hkin : Kin (Function.update w.session x p.session) := by
    refine h.kin.replace (fun q => h.kin.notMem_of_rootless (h.kin.rootless x hnopar) q)
      (by rw [hp']; rfl) (by rw [hp']; rfl) ?_
    rw [hp']
    simp
  have hinv : WorkerInv (w.setSession x p.session) m n := by
    cases Session.step_outcome (s := (w.session x).ready) hm hwf0 rfl hp with
    | switch hop' => rw [hop] at hop'; cases hop'
    | joinNew k hop' => rw [hop] at hop'; cases k <;> cases hop'
    | free hop' => rw [hop] at hop'; rcases hop' with hop' | hop' <;> cases hop'
    | stay _ hwf' q hq hplace =>
      rw [heff, Session.placeBefore, if_neg (by simp)] at hq
      have hat : At m n x q := by
        rw [← Option.some.inj hq]
        exact h.place x
      exact h.setSession (hat.anywhere_or hplace) hwf' hkin
  refine ⟨rfl, hinv, ?_, ?_, ?_, fun y hy => Function.update_of_ne hy _ _⟩
  · rw [hx, hp']
    exact hm
  · rw [hx, hp']
  · rw [hx, hp']
    exact hf

theorem WorkerInv.addChild {child : Nat} {r : Int} (h : WorkerInv w m n)
    (hf : (w.session x).isForeign = false) (hm : (w.session x).magic = true)
    (hchild : (w.session child).magic = true ∧ (w.session child).parentSession = some x)
    (ht : esqSessionTakeAction w x (.addChild child) os = .ok (r, w')) : WorkerInv w' m n := by
  have hd := ht
  rw [esqSessionTakeAction, if_pos hm] at hd
  obtain ⟨w1, hd, -⟩ := bind_eq_ok.mp hd
  unfold Worker.dispatch at hd
  obtain ⟨p, hp, -⟩ := bind_eq_ok.mp hd
  have hwf := h.wf x
  have hwf0 : (w.session x).ready.WF :=
    ⟨hwf.new, hwf.single, hwf.multi, hwf.removed⟩
  obtain ⟨hlc, hp'⟩ := Session.step_addChild (s := (w.session x).ready) hf hwf0 hp
  rw [takeAction_of_quiet hm hp (by rw [hp']) (by rw [hp'])] at ht
  obtain ⟨-, rfl⟩ := Prod.mk.inj (Except.ok.inj ht)
  have hlc : (w.session x).lc = .single .executeCb := hlc
  refine h.setSession ?_ ?_ ?_
  · have hplace : p.session.place = (w.session x).place := by
      rw [hp']
      simp only [Session.place, Session.ready, hlc]
    rw [hplace]
    exact h.place x
  · rw [hp']
    refine ⟨hwf.new, fun _ => ⟨_, rfl⟩, fun hmulti => ?_, by simp⟩
    obtain ⟨⟨l, hl⟩, -, -⟩ := hwf.multi hmulti
    rw [hlc] at hl
    cases hl
  · refine h.kin.addMember (c := child) (by rw [hp']; rfl) (by rw [hp']; rfl)
      (by rw [hp']; rfl) ?_ ?_ ?_
    · intro hr
      exact (Session.Retired.step (s := (w.session x).ready) hr rfl hp).1
    · intro y hy
      rw [hp'] at hy
      rcases List.mem_cons.mp hy with rfl | hy
      · exact Or.inl ⟨rfl, hchild⟩
      · exact Or.inr hy
    · intro y hy
      rw [hp'] at hy
      exact Or.inr hy

theorem WorkerInv.bundle {parent child cb : Nat} {r : Int} (h : WorkerInv w m n)
    (hfp : (w.session parent).isForeign = false) (hfc : (w.session child).isForeign = false)
    (ht : esqSessionBundleChild w parent child cb os = .ok (r, w')) : WorkerInv w' m n := by
  unfold esqSessionBundleChild at ht
  split at ht
  · next hmagic =>
    obtain ⟨⟨r1, w1⟩, hset, ht⟩ := bind_eq_ok.mp ht
    obtain ⟨rfl, h1, hmc, hpar, hfc1, hother⟩ := h.setParent hfc hmagic.2 hset
    simp only [esqOk, ne_eq, not_true_eq_false, if_false] at ht
    have hparent : (w1.session parent).magic = true ∧
        (w1.session parent).isForeign = false := by
      by_cases he : parent = child
      · subst he
        exact ⟨hmc, hfc1⟩
      · rw [hother parent he]
        exact ⟨hmagic.1, hfp⟩
    exact h1.addChild hparent.2 hparent.1 ⟨hmc, hpar⟩ ht
  · obtain ⟨-, rfl⟩ := Prod.mk.inj (Except.ok.inj ht)
    exact h

end

/-! ## 一つの worker の実行 -/

def InList (w : Worker) (l : WorkerList) (x : Nat) : Prop :=
  ∃ xs, Linked w.links.next (w.ends l).head xs ∧ x ∈ xs

def WorkerList.timed : WorkerList → Bool
  | .active => false
  | .ofNoTime => false
  | _ => true

def InNewList (w : Worker) (k : NewList) (x : Nat) : Prop :=
  ∃ xs, Linked w.links.next (w.newEnds k).head xs ∧ x ∈ xs

/-- session が `p` にいて、他のどこにもいない。 -/
def Located (w : Worker) (x : Nat) : Place → Prop
  | .nowhere => (∀ l, ¬ InList w l x) ∧ ∀ k, ¬ InNewList w k x
  | .newList => (∀ l, ¬ InList w l x) ∧ ∃ k, InNewList w k x ∧ ∀ k', InNewList w k' x → k' = k
  | .list l => InList w l x ∧ (∀ l', InList w l' x → l' = l) ∧ ∀ k, ¬ InNewList w k x
  | .anywhere => True

/-- mco や hash lock の session が行ってよい操作。いる list から抜け、いない list に入る。 -/
def OtherLegal (w : Worker) (x : Nat) : OtherOp → Prop
  | .list (.joinHead _) => Located w x .nowhere
  | .list (.joinTail _) => Located w x .nowhere
  | .list (.left l) => Located w x (.list l)
  | .list _ => True
  | .joinNew _ => Located w x .nowhere

def WorkerOpLegal (w : Worker) : WorkerOp → Prop
  | .other x op => OtherLegal w x op
  | _ => True

section

variable {w w' : Worker} {m : WorkerList → List Nat} {n : NewList → List Nat} {x : Nat}

theorem ListInv.inList_iff (h : ListInv w m n) {l : WorkerList} : InList w l x ↔ x ∈ m l := by
  constructor
  · rintro ⟨xs, hxs, hx⟩
    rw [← hxs.unique (h.lists.dll l).1]
    exact hx
  · exact fun hx => ⟨m l, (h.lists.dll l).1, hx⟩

theorem ListInv.inNewList_iff (h : ListInv w m n) {k : NewList} : InNewList w k x ↔ x ∈ n k := by
  constructor
  · rintro ⟨xs, hxs, hx⟩
    rw [← hxs.unique (h.news.queue k).1]
    exact hx
  · exact fun hx => ⟨n k, (h.news.queue k).1, hx⟩

theorem ListInv.located_iff (h : ListInv w m n) {p : Place} : Located w x p ↔ At m n x p := by
  cases p with
  | nowhere =>
    simp only [Located, At, h.inList_iff, h.inNewList_iff]
  | newList =>
    simp only [Located, At, h.inList_iff, h.inNewList_iff]
    constructor
    · rintro ⟨-, k, hk, -⟩
      exact ⟨k, hk⟩
    · rintro ⟨k, hk⟩
      exact ⟨fun l hl => h.apart hl hk, k, hk, fun k' hk' => h.news.disjoint hk' hk⟩
  | list l =>
    simp only [Located, At, h.inList_iff, h.inNewList_iff]
    constructor
    · exact fun hx => hx.1
    · exact fun hx => ⟨hx, fun l' hl' => h.lists.disjoint hl' hx, fun k => h.apart hx⟩
  | anywhere => exact Iff.rfl

theorem ListInv.move_of_legal {e : Effect} (h : ListInv w m n)
    (hlegal : OtherLegal w x (.list e)) : ∃ p q, At m n x p ∧ p.move e = some q := by
  cases e with
  | joinHead l => exact ⟨.nowhere, .list l, h.located_iff.mp hlegal, rfl⟩
  | joinTail l => exact ⟨.nowhere, .list l, h.located_iff.mp hlegal, rfl⟩
  | left l => exact ⟨.list l, .nowhere, h.located_iff.mp hlegal, if_pos rfl⟩
  | addSocketFd fd bits => exact ⟨.anywhere, .anywhere, trivial, rfl⟩
  | addSocketFdMultishot fd bits => exact ⟨.anywhere, .anywhere, trivial, rfl⟩
  | removeSocketFd => exact ⟨.anywhere, .anywhere, trivial, rfl⟩

theorem WorkerInv.other {op : OtherOp} (h : WorkerInv w m n)
    (ho : (w.session x).isOther = true) (hlegal : OtherLegal w x op)
    (hs : workerStep w (.other x op) = some w') : ∃ m' n', WorkerInv w' m' n' := by
  have hplace : (w.session x).place = .anywhere := by
    simp only [Session.isOther, Bool.and_eq_true, Bool.or_eq_true, decide_eq_true_eq] at ho
    obtain ⟨hm, ht | ⟨ht, hl⟩⟩ := ho
    · simp [Session.place, hm, ht]
    · simp [Session.place, hm, ht, hl]
  have hclose : ∀ {w' : Worker} {m' n'}, ListInv w' m' n' → Others m m' n n' x →
      w'.session = w.session → WorkerInv w' m' n' := by
    intro w' m' n' hl hoth hsess
    refine Acting.close (x := x) ((h.acting x).transfer hl hoth fun y _ => by rw [hsess]) ?_ ?_ ?_
    · rw [hsess, hplace]
      trivial
    · rw [hsess]
      exact h.wf x
    · rw [hsess]
      exact h.kin
  simp only [workerStep, if_pos ho] at hs
  cases op with
  | joinNew k =>
    obtain ⟨n', hl, -, hoth⟩ := h.toListInv.joinNewList (h.located_iff.mp hlegal) k
    cases hs
    exact ⟨m, n', hclose hl hoth (joinNewList_session w k x)⟩
  | list e =>
    cases hs
    obtain ⟨p, q, hat, hmove⟩ := h.toListInv.move_of_legal hlegal
    obtain ⟨m', hl, -, hoth⟩ := h.toListInv.execEffect hat hmove
    exact ⟨m', n, hclose hl hoth (execEffects_session [e] w)⟩

theorem workerInv_init : WorkerInv Worker.init (fun _ => []) (fun _ => []) where
  lists := ⟨fun _ => isDll_empty, fun h => by simp at h⟩
  news := ⟨fun _ => isQueue_empty, fun h => by simp at h⟩
  newTail _ _ := rfl
  apart h := by simp at h
  lefts e he := by simp [Worker.init] at he
  place x := ⟨fun l => by simp, fun k => by simp⟩
  wf x := ⟨by simp [Worker.init], by simp [Worker.init], by simp [Worker.init], by simp [Worker.init]⟩
  kin := ⟨by simp [Worker.init], by simp [Worker.init], by simp [Worker.init]⟩

/-- **不変量は worker の一つの操作で保たれる。** -/
theorem workerInv_step (w : Worker) (op : WorkerOp) (w' : Worker)
    (h : ∃ m n, WorkerInv w m n) (hlegal : WorkerOpLegal w op)
    (hs : workerStep w op = some w') : ∃ m n, WorkerInv w' m n := by
  obtain ⟨m, n, h⟩ := h
  cases op with
  | new x =>
    rw [workerStep] at hs
    split at hs
    · cases hs
    · next hm =>
      cases hs
      have hplace : (w.session x).place = .nowhere := by simp [Session.place, hm]
      have hat := h.place x
      rw [hplace] at hat
      refine ⟨m, n, h.setSession hat ⟨?_, ?_, ?_, ?_⟩ ?_⟩
      · exact fun _ => rfl
      · simp [esqSessionNew]
      · simp [esqSessionNew]
      · simp [esqSessionNew]
      · -- 解放された session は誰の子でもなく、新しい session に子は無い
        have hx : ∀ p, x ∉ (w.session p).childSessionList ∧
            x ∉ (w.session p).finishedChildSessionList :=
          fun p => ⟨fun hm' => hm (h.kin.children p x hm').1,
            fun hm' => hm (h.kin.finished p x hm').1⟩
        refine ⟨fun p y hy => ?_, fun p y hy => ?_, fun y hy => ?_⟩
        · by_cases hp : p = x
          · subst hp
            simp [esqSessionNew] at hy
          · rw [Function.update_of_ne hp] at hy
            have hyx : y ≠ x := fun he => (hx p).1 (he ▸ hy)
            rw [Function.update_of_ne hyx]
            exact h.kin.children p y hy
        · by_cases hp : p = x
          · subst hp
            simp [esqSessionNew] at hy
          · rw [Function.update_of_ne hp] at hy
            have hyx : y ≠ x := fun he => (hx p).2 (he ▸ hy)
            rw [Function.update_of_ne hyx]
            exact h.kin.finished p y hy
        · by_cases hyx : y = x
          · subst hyx
            simp [esqSessionNew]
          · rw [Function.update_of_ne hyx] at hy ⊢
            exact h.kin.rootless y hy
  | act x action os =>
    rw [workerStep] at hs
    split at hs
    · cases hs
    · next hres =>
      split at hs
      · cases hs
      · next r w1 ht =>
        cases hs
        exact h.act (by simpa using hres) ht
  | bundle parent child cb os =>
    rw [workerStep] at hs
    split at hs
    · cases hs
    · next hf =>
      rw [Bool.or_eq_true, not_or, Bool.not_eq_true, Bool.not_eq_true] at hf
      split at hs
      · cases hs
      · next r w1 ht =>
        cases hs
        exact ⟨m, n, h.bundle hf.1 hf.2 ht⟩
  | pickUp k os =>
    rw [workerStep] at hs
    cases ht : esqWorkerPickUp w k os with
    | error e => simp [ht, Except.toOption] at hs
    | ok w1 =>
      rw [ht] at hs
      cases hs
      exact h.pickUp ht
  | other x op =>
    by_cases ho : (w.session x).isOther = true
    · exact h.other ho hlegal hs
    · simp only [workerStep, if_neg ho] at hs
      cases hs
  | complete x res =>
    cases hs
    refine ⟨m, n, ?_⟩
    unfold Worker.completePoll
    cases w.poll x <;>
      exact ⟨⟨h.lists, h.news, h.newTail, h.apart, h.lefts⟩, h.place, h.wf, h.kin⟩

end

/--
**一つの worker のどの実行でも、session は状態が名指す list にだけいて、list は正しく繋がっている。**

`DOUBLE_LL_LEFT` は、いつも session が本当にいた list に当てられている。
-/
theorem membership_run (ops : List WorkerOp) (w : Worker)
    (hlegal : Along workerStep WorkerOpLegal Worker.init ops)
    (hrun : runFrom workerStep Worker.init ops = some w) :
    (∀ x, Located w x (w.session x).place) ∧
      (∀ l, ∃ xs, IsDll w.links (w.ends l) xs ∧ xs.Nodup) ∧ ∀ e ∈ w.lefts, e.Sound := by
  obtain ⟨m, n, h⟩ := runFrom_invariant workerInv_step ⟨_, _, workerInv_init⟩ hlegal hrun
  refine ⟨fun x => h.located_iff.mpr (h.place x), fun l => ?_, h.lefts⟩
  exact ⟨m l, h.lists.dll l, (h.lists.dll l).nodup⟩

/-- single shot と multi shot が一つずつあり、single shot が時間切れで fd の取り消しを待つ。 -/
theorem membership_run_timeout :
    ∃ w, runFrom workerStep Worker.init
        [.new 0, .new 1, .act 0 (.addSockFdSingle { fd := 5, timeouts := 1 }) 0,
          .act 1 (.addSockFdMulti { fd := 6 }) 0, .act 0 .windUp 0, .act 1 .windUpRr 0,
          .pickUp .localNew 0, .pickUp .globalNew 0, .act 0 .notifyTimeout 0] = some w ∧
      (w.session 0).lc = .single .waitForRemovedThenActive ∧
      Located w 0 (.list .ofNoTime) ∧ Located w 1 (.list .ofNoTime) := by
  refine ⟨_, rfl, rfl, ?_⟩
  have h := membership_run
    [.new 0, .new 1, .act 0 (.addSockFdSingle { fd := 5, timeouts := 1 }) 0,
      .act 1 (.addSockFdMulti { fd := 6 }) 0, .act 0 .windUp 0, .act 1 .windUpRr 0,
      .pickUp .localNew 0, .pickUp .globalNew 0, .act 0 .notifyTimeout 0] _ ?_ rfl
  · exact ⟨h.1 0, h.1 1⟩
  · exact ⟨trivial, fun _ _ => ⟨trivial, fun _ _ => ⟨trivial, fun _ _ => ⟨trivial, fun _ _ =>
      ⟨trivial, fun _ _ => ⟨trivial, fun _ _ => ⟨trivial, fun _ _ => ⟨trivial, fun _ _ =>
        ⟨trivial, fun _ _ => trivial⟩⟩⟩⟩⟩⟩⟩⟩⟩

end Esq
