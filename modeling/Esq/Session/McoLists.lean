import Esq.Session.McoWorker
import Esq.Session.Solo

/-!
# coroutine の session と list

一つの coroutine の session `x` に action を次々に渡し、その間に他の session も list を出入りする。
`__execute_cb_installed_socket_fd` で届いた event は `event_bits2` に溜まり、届くたびに
timing list から抜ける。抜けたことはどこにも残らないので、二度目の event はいない list から
もう一度抜く。逆に、`ACTION_ADD_SOCK_FD_SINGLE` の前に溜まっていた event は抜けることなく残り、
`ACTION_WIND_UP` は timing list にいる session を active list にも入れる。

抜けたかどうかは、fd を仕掛けてから届いた event の数（`notified`）で決まる。

* `esqPtOfMco_moved` — `McoGood` な action の一歩は、session を正しく移す
* `mco_membership` — どんな action の列でも、list が乱れないのはどの action も `McoGood` のとき、
  そのときに限る
-/

namespace Esq

open Infra

/-! ## 状態と操作 -/

/--
`x` の他の session がいる所は `others` に記す。

`notified` は最後の `ACTION_ADD_SOCK_FD_SINGLE` の後に
`__execute_cb_installed_socket_fd` で届いた event の数で、C の欄ではない。
-/
structure McoRun where
  mw : McoWorker
  notified : Nat
  others : Nat → Place

/-- `x` が受ける action と、他の session の list の出入り。 -/
inductive McoOp where
  | act (a : McoAction)
  | list (y : Nat) (e : Effect)
  | joinNew (y : Nat) (k : NewList)
  /-- new list `k` の先頭を取る -/
  | pickUp (k : NewList)
deriving DecidableEq, Repr

def McoLabel.notifiedAfter (lc : McoLabel) (action : Action) (k : Nat) : Nat :=
  match lc, action with
  | .executeCb, .addSockFdSingle _ => 0
  | .executeCbInstalledSocketFd, .notifyEvent _ => k + 1
  | .executeCbInstalledSocketFd, .notifyExit => k + 1
  | .executeCbInstalledSocketFd, .notifyTimeout => k + 1
  | _, _ => k

def McoRun.moveOther (r : McoRun) (y : Nat) (w : Worker) (p : Place) : McoRun :=
  { r with
    mw := { r.mw with worker := w }
    others := Function.update r.others y p }

def mcoStep (x : Nat) (r : McoRun) : McoOp → Option McoRun
  | .act a =>
    match r.mw.takeAction x a with
    | .error _ => none
    | .ok (_, mw) =>
      some { r with mw, notified := (r.mw.lc x).notifiedAfter a.action r.notified }
  | .list y e =>
    match (r.others y).move e with
    | none => none
    | some p => some (r.moveOther y (r.mw.worker.execEffect y e) p)
  | .joinNew y k => some (r.moveOther y (r.mw.worker.joinNewList k y) .newList)
  | .pickUp k =>
    match r.mw.worker.popNewList k with
    | none => some r
    | some (y, w) => some (r.moveOther y w .nowhere)

/--
許される操作。`x` への action は `INVALID_ACTION_TYPE` に着かず、
他の session はいる list から抜け、いない list に入る。
-/
def McoOpLegal (x : Nat) (r : McoRun) : McoOp → Prop
  | .act a => ∃ res, r.mw.takeAction x a = .ok res
  | .list y e => y ≠ x ∧ ∃ p, (r.others y).move e = some p
  | .joinNew y _ => y ≠ x ∧ r.others y = .nowhere
  | .pickUp _ => True

structure McoSound (x : Nat) (r : McoRun) : Prop where
  /-- 抜いた session は、どれも抜く直前にその list にいた -/
  lefts : ∀ e ∈ r.mw.worker.lefts, e.Sound
  /-- `x` は二つの list に同時にはいない -/
  once : ∀ l l', InList r.mw.worker l x → InList r.mw.worker l' x → l = l'
  wellFormed : ∃ m, IsFamily r.mw.worker.links r.mw.worker.ends m
  /-- 他の session は、自分で動いた先にいる -/
  others : ∀ y, y ≠ x → Located r.mw.worker y (r.others y)

/-! ## 状態機械の一歩 -/

/-- label が名指す list。`k` はそれまでに届いた event の数である。 -/
def McoLabel.place (s : Session) (k : Nat) : McoLabel → Place
  | .start => .nowhere
  | .active => .list .active
  | .executeCb => .nowhere
  | .windedUp => if k = 0 then .list s.timingList else .nowhere
  | .executeCbInstalledSocketFd => if k = 0 then .list s.timingList else .nowhere

theorem McoLabel.place_congr {s t : Session} (h : s.timingList = t.timingList) (lc : McoLabel)
    (k : Nat) : lc.place s k = lc.place t k := by
  cases lc with
  | windedUp => rw [McoLabel.place, McoLabel.place, h]
  | executeCbInstalledSocketFd => rw [McoLabel.place, McoLabel.place, h]
  | _ => rfl

/--
list を乱さない action。

fd を仕掛けてから届く event は一つまでで、届いたら `ACTION_REMOVE_FD` は来ない。
溜まった event で終わる `ACTION_WIND_UP` は、仕掛けてから event が一つ届いた後に限る。
-/
def McoGood (s : Session) (lc : McoLabel) (k : Nat) (action : Action) : Prop :=
  match lc, action with
  | .executeCbInstalledSocketFd, .notifyEvent _ => k = 0
  | .executeCbInstalledSocketFd, .notifyExit => k = 0
  | .executeCbInstalledSocketFd, .notifyTimeout => k = 0
  | .executeCbInstalledSocketFd, .removeFd => k = 0
  | .executeCbInstalledSocketFd, .windUp => s.eventBits2 ≠ 0 → k ≠ 0
  | .windedUp, _ => k = 0
  | _, _ => True

structure McoMoved (s : Session) (before : Place) (p : PtRun) (lc : McoLabel) (k : Nat) :
    Prop where
  kin : SameKin s p.session
  type : p.session.sessionType = s.sessionType
  timing : p.session.timingList = s.timingList
  outcome : ((p.session.postOp = popNoOp ∨ p.session.postOp = popReturnValue)
      ∧ before.moves p.effects = some (lc.place s k))
    ∨ (p.session.postOp = popFreeSession ∧ p.effects = [] ∧ before = .nowhere)

section

variable {s : Session} {lc lc' : McoLabel} {k : Nat} {action : Action} {os : Int} {isEnd : Bool}
  {p : PtRun}

theorem mcoMoved_stay {before : Place} (hkin : SameKin s p.session)
    (htype : p.session.sessionType = s.sessionType) (htime : p.session.timingList = s.timingList)
    (hop : p.session.postOp = popNoOp ∨ p.session.postOp = popReturnValue)
    (hmoves : before.moves p.effects = some (lc.place s k)) : McoMoved s before p lc k :=
  ⟨hkin, htype, htime, Or.inl ⟨hop, hmoves⟩⟩

/-- **`McoGood` な action の一歩は、label の名指す list から list へ session を移す。** -/
theorem esqPtOfMco_moved (hop : s.postOp = popNoOp) (hgood : McoGood s lc k action)
    (h : esqPtOfMco s lc action os isEnd = .ok (p, lc')) :
    McoMoved s (lc.place s k) p lc' (lc.notifiedAfter action k) := by
  unfold esqPtOfMco at h
  cases lc with
  | start =>
    cases h
    exact mcoMoved_stay ⟨rfl, rfl, rfl, rfl, rfl⟩ rfl rfl (Or.inr rfl) rfl
  | active =>
    simp only [McoPt.active] at h
    split at h
    · cases h
      exact mcoMoved_stay ⟨rfl, rfl, rfl, rfl, rfl⟩ rfl rfl (Or.inl rfl) rfl
    · cases h
      exact mcoMoved_stay ⟨rfl, rfl, rfl, rfl, rfl⟩ rfl rfl (Or.inl rfl) rfl
    · cases h
      exact mcoMoved_stay ⟨rfl, rfl, rfl, rfl, rfl⟩ rfl rfl (Or.inr rfl) rfl
    · cases h
  | windedUp =>
    -- `McoGood` なら session は timing list にいる
    obtain rfl : k = 0 := hgood
    have hwake : ∀ bits, McoMoved s (McoLabel.windedUp.place s 0) (McoPt.wake { session := s } bits).1
        .active 0 := by
      intro bits
      refine mcoMoved_stay ⟨rfl, rfl, rfl, rfl, rfl⟩ rfl rfl (Or.inl rfl) ?_
      simp [McoPt.wake, McoLabel.place, Place.moves, Place.move, Session.timingList]
    simp only [McoPt.windedUp] at h
    split at h
    · cases h
      exact hwake _
    · cases h
      exact hwake _
    · cases h
      exact hwake _
    · cases h
  | executeCb =>
    simp only [McoPt.executeCb] at h
    split at h
    · split at h
      · cases h
        exact ⟨⟨rfl, rfl, rfl, rfl, rfl⟩, rfl, rfl, Or.inr ⟨rfl, rfl, rfl⟩⟩
      · split at h
        · cases h
          exact mcoMoved_stay ⟨rfl, rfl, rfl, rfl, rfl⟩ rfl rfl (Or.inl hop) rfl
        · cases h
    · split at h
      · split at h
        · cases h
          exact mcoMoved_stay ⟨rfl, rfl, rfl, rfl, rfl⟩ rfl rfl (Or.inr rfl) rfl
        · cases h
          exact mcoMoved_stay ⟨rfl, rfl, rfl, rfl, rfl⟩ rfl rfl (Or.inr rfl) rfl
      · cases h
        exact mcoMoved_stay ⟨rfl, rfl, rfl, rfl, rfl⟩ rfl rfl (Or.inr rfl) rfl
    · cases h
      exact mcoMoved_stay ⟨rfl, rfl, rfl, rfl, rfl⟩ rfl rfl (Or.inl rfl) rfl
    · cases h
      exact mcoMoved_stay ⟨rfl, rfl, rfl, rfl, rfl⟩ rfl rfl (Or.inl rfl) rfl
    · cases h
  | executeCbInstalledSocketFd =>
    have hstore : ∀ bits, k = 0 → McoMoved s (McoLabel.executeCbInstalledSocketFd.place s k)
        (McoPt.store { session := s } bits).1 .executeCbInstalledSocketFd (k + 1) := by
      rintro bits rfl
      refine mcoMoved_stay ⟨rfl, rfl, rfl, rfl, rfl⟩ rfl rfl (Or.inl rfl) ?_
      simp [McoPt.store, McoLabel.place, Place.moves, Place.move, Session.timingList]
    simp only [McoPt.executeCbInstalledSocketFd] at h
    split at h
    · split at h
      · cases h
      · split at h
        · next hbits =>
          -- 溜まった event があるなら、もう timing list から抜けている
          have hk : k ≠ 0 := hgood hbits
          cases h
          refine mcoMoved_stay ⟨rfl, rfl, rfl, rfl, rfl⟩ rfl rfl (Or.inl rfl) ?_
          simp [McoPt.resumeStored, McoLabel.place, Place.moves, Place.move, hk]
        · cases h
          exact mcoMoved_stay ⟨rfl, rfl, rfl, rfl, rfl⟩ rfl rfl (Or.inl rfl) rfl
    · obtain rfl : k = 0 := hgood
      cases h
      unfold McoPt.removeSocketFd
      split
      · refine mcoMoved_stay ⟨rfl, rfl, rfl, rfl, rfl⟩ rfl rfl (Or.inl rfl) ?_
        simp [McoLabel.place, Place.moves, Place.move, Session.timingList]
      · refine mcoMoved_stay ⟨rfl, rfl, rfl, rfl, rfl⟩ rfl rfl (Or.inl rfl) ?_
        simp [McoLabel.place, Place.moves, Place.move, Session.timingList]
    · cases h
      exact hstore _ hgood
    · cases h
      exact hstore _ hgood
    · cases h
      exact hstore _ hgood
    · cases h

theorem not_mcoGood (hbad : ¬ McoGood s lc k action) :
    ((lc = .windedUp ∨ (lc = .executeCbInstalledSocketFd ∧ action ≠ .windUp)) ∧ k ≠ 0)
      ∨ (lc = .executeCbInstalledSocketFd ∧ action = .windUp ∧ s.eventBits2 ≠ 0 ∧ k = 0) := by
  cases lc with
  | windedUp => exact Or.inl ⟨Or.inl rfl, hbad⟩
  | executeCbInstalledSocketFd =>
    cases action with
    | windUp =>
      obtain ⟨hbits, hk⟩ := Classical.not_imp.mp hbad
      exact Or.inr ⟨rfl, rfl, hbits, not_not.mp hk⟩
    | notifyEvent bits => exact Or.inl ⟨Or.inr ⟨rfl, by simp⟩, hbad⟩
    | notifyExit => exact Or.inl ⟨Or.inr ⟨rfl, by simp⟩, hbad⟩
    | notifyTimeout => exact Or.inl ⟨Or.inr ⟨rfl, by simp⟩, hbad⟩
    | removeFd => exact Or.inl ⟨Or.inr ⟨rfl, by simp⟩, hbad⟩
    | _ => exact absurd trivial hbad
  | _ => exact absurd trivial hbad

theorem esqPtOfMco_leaves
    (hlc : lc = .windedUp ∨ (lc = .executeCbInstalledSocketFd ∧ action ≠ .windUp)) (h : esqPtOfMco s lc action os isEnd = .ok (p, lc')) :
    p.session.postOp = popNoOp ∧ ∃ before after, p.effects = before ++ .left s.timingList :: after
      ∧ Place.nowhere.moves before = some .nowhere := by
  unfold esqPtOfMco at h
  rcases hlc with rfl | ⟨rfl, hwind⟩
  · simp only [McoPt.windedUp] at h
    split at h
    · cases h
      exact ⟨rfl, [], _, rfl, rfl⟩
    · cases h
      exact ⟨rfl, [], _, rfl, rfl⟩
    · cases h
      exact ⟨rfl, [], _, rfl, rfl⟩
    · cases h
  · simp only [McoPt.executeCbInstalledSocketFd] at h
    split at h
    · exact absurd rfl hwind
    · cases h
      unfold McoPt.removeSocketFd
      split
      · exact ⟨rfl, [.removeSocketFd], [], rfl, rfl⟩
      · exact ⟨rfl, [], [], rfl, rfl⟩
    · cases h
      exact ⟨rfl, [], [], rfl, rfl⟩
    · cases h
      exact ⟨rfl, [], [], rfl, rfl⟩
    · cases h
      exact ⟨rfl, [], [], rfl, rfl⟩
    · cases h

end

/-! ## 不変量 -/

def McoRun.place (r : McoRun) (x : Nat) : Place :=
  if (r.mw.session x).magic then (r.mw.lc x).place (r.mw.session x) r.notified else .nowhere

/-- `x` は label と `notified` が名指す所に、他の session は自分で動いた先にいる。 -/
structure McoInv (x : Nat) (r : McoRun) (m : WorkerList → List Nat) (n : NewList → List Nat) : Prop
    extends ListInv r.mw.worker m n where
  others : ∀ y, y ≠ x → At m n y (r.others y)
  self : At m n x (r.place x)
  solo : (r.mw.session x).Solo
  type : (r.mw.session x).sessionType = .mco

section

variable {x y : Nat} {r r' : McoRun} {m m' : WorkerList → List Nat} {n n' : NewList → List Nat}
  {a : McoAction} {op : McoOp} {p : PtRun} {lc : McoLabel} {w : Worker}

theorem McoInv.sound (h : McoInv x r m n) : McoSound x r where
  lefts := h.lefts
  once _ _ hl hl' := h.lists.disjoint (h.toListInv.inList_iff.mp hl) (h.toListInv.inList_iff.mp hl')
  wellFormed := ⟨m, h.lists⟩
  others y hy := h.toListInv.located_iff.mpr (h.others y hy)

theorem McoInv.moveOther {q : Place} (h : McoInv x r m n) (hy : y ≠ x)
    (hw : w.session = r.mw.worker.session) (hl : ListInv w m' n') (hat : At m' n' y q)
    (ho : Others m m' n n' y) : McoInv x (r.moveOther y w q) m' n' := by
  have hs : (r.moveOther y w q).mw.session x = r.mw.session x := congrFun hw x
  refine ⟨hl, fun z hz => ?_, ?_, ?_, ?_⟩
  · by_cases hzy : z = y
    · subst hzy
      show At m' n' z (Function.update r.others z q z)
      rw [Function.update_self]
      exact hat
    · show At m' n' z (Function.update r.others y q z)
      rw [Function.update_of_ne hzy]
      exact ho z hzy _ (h.others z hz)
  · have hplace : (r.moveOther y w q).place x = r.place x := by
      unfold McoRun.place
      rw [hs]
      rfl
    rw [hplace]
    exact ho x hy.symm _ h.self
  · rw [hs]
    exact h.solo
  · rw [hs]
    exact h.type

theorem McoInv.notMem_new (h : McoInv x r m n) (k : NewList) : x ∉ n k := by
  have hself := h.self
  unfold McoRun.place at hself
  split at hself
  · cases hlc : r.mw.lc x with
    | active =>
      rw [hlc] at hself
      exact h.apart hself
    | windedUp =>
      rw [hlc, McoLabel.place] at hself
      split at hself
      · exact h.apart hself
      · exact hself.2 k
    | executeCbInstalledSocketFd =>
      rw [hlc, McoLabel.place] at hself
      split at hself
      · exact h.apart hself
      · exact hself.2 k
    | _ =>
      rw [hlc] at hself
      exact hself.2 k
  · exact hself.2 k

theorem McoInv.stepped {k : Nat} {q : Place} (h : McoInv x r m n) (lc : McoLabel)
    (hkin : SameKin (r.mw.session x) p.session) (htype : p.session.sessionType = .mco)
    (hmoves : (r.place x).moves p.effects = some q)
    (hplace : McoRun.place { r with mw := r.mw.stepped x p lc, notified := k } x = q) :
    ∃ m', McoInv x { r with mw := r.mw.stepped x p lc, notified := k } m' n := by
  obtain ⟨m', hl, hat, ho⟩ := (h.toListInv.setSession (x := x) p.session).execEffects p.effects
    h.self hmoves
  refine ⟨m', hl, fun y hy => ho y hy _ (h.others y hy), by rw [hplace]; exact hat, ?_, ?_⟩
  · show ((r.mw.stepped x p lc).session x).Solo
    rw [stepped_session_self]
    exact h.solo.sameKin hkin
  · show ((r.mw.stepped x p lc).session x).sessionType = .mco
    rw [stepped_session_self]
    exact htype

theorem mcoTakeAction_free (hm : (r.mw.session x).magic = true) (hsolo : p.session.Solo)
    (hstep : (r.mw.session x).ready.stepMco (r.mw.lc x) a = .ok (p, lc))
    (hop : p.session.postOp = popFreeSession) :
    ∃ w, r.mw.takeAction x a = .ok (esqOk, { r.mw.stepped x p lc with worker := w })
      ∧ SameLists (r.mw.stepped x p lc).worker w
      ∧ w.session x = { p.session with magic := false } := by
  have hs : (r.mw.stepped x p lc).worker.session x = p.session := stepped_session_self
  obtain ⟨w, hfree, hlists, hsess⟩ := freeSession_of_solo (w := (r.mw.stepped x p lc).worker)
    (x := x) (by rw [hs]; exact hsolo) a.os
  refine ⟨w, ?_, hlists, ?_⟩
  · unfold McoWorker.takeAction
    rw [if_pos hm, mcoDispatch_eq hstep, ok_bind, stepped_session_self, hop, if_neg (by decide)]
    unfold McoWorker.postActions Worker.postActions
    rw [hs, hop]
    dsimp only
    rw [if_neg (by decide), if_neg (by decide), if_pos (by decide), hfree]
    rfl
  · rw [hsess, Function.update_self, hs]

theorem mcoStep_act {res : Int × McoWorker} (h : r.mw.takeAction x a = .ok res) :
    mcoStep x r (.act a) = some { r with
      mw := res.2, notified := (r.mw.lc x).notifiedAfter a.action r.notified } := by
  simp only [mcoStep, h]

theorem McoInv.stepMco_eq (h : McoInv x r m n) (hm : (r.mw.session x).magic = true)
    (hlegal : McoOpLegal x r (.act a)) :
    ∃ p lc, esqPtOfMco (r.mw.session x).ready (r.mw.lc x) a.action a.os a.isEnd = .ok (p, lc)
      ∧ (r.mw.session x).ready.stepMco (r.mw.lc x) a = .ok (p, lc) := by
  obtain ⟨res, hres⟩ := hlegal
  have hstep : (r.mw.session x).ready.stepMco (r.mw.lc x) a
      = esqPtOfMco (r.mw.session x).ready (r.mw.lc x) a.action a.os a.isEnd := if_pos h.type
  cases hp : esqPtOfMco (r.mw.session x).ready (r.mw.lc x) a.action a.os a.isEnd with
  | error e =>
    unfold McoWorker.takeAction McoWorker.dispatch at hres
    rw [if_pos hm, hstep, hp] at hres
    cases hres
  | ok q => exact ⟨q.1, q.2, rfl, hstep.trans hp⟩

/-- **`McoGood` な action は、`x` を label の名指す所へ移す。** -/
theorem McoInv.act (h : McoInv x r m n) (hlegal : McoOpLegal x r (.act a))
    (hgood : (r.mw.session x).magic = true →
      McoGood (r.mw.session x) (r.mw.lc x) r.notified a.action)
    (hs : mcoStep x r (.act a) = some r') : ∃ m' n', McoInv x r' m' n' := by
  by_cases hm : (r.mw.session x).magic = true
  · obtain ⟨p, lc, hp, hstep⟩ := h.stepMco_eq hm hlegal
    have hmoved := esqPtOfMco_moved (s := (r.mw.session x).ready) rfl (hgood hm) hp
    have hkin : SameKin (r.mw.session x) p.session :=
      (sameKin_ready _).trans hmoved.kin
    have htype : p.session.sessionType = .mco := hmoved.type.trans h.type
    have hself : r.place x = (r.mw.lc x).place (r.mw.session x).ready r.notified := if_pos hm
    rcases hmoved.outcome with ⟨hop, hmoves⟩ | ⟨hop, heff, hbefore⟩
    · obtain ⟨res, htake⟩ := mcoTakeAction_stay hm hstep hop
      rw [mcoStep_act htake] at hs
      cases hs
      rw [← hself] at hmoves
      obtain ⟨m', hinv⟩ := h.stepped lc hkin htype hmoves (by
        unfold McoRun.place
        rw [stepped_session_self, stepped_lc_self, if_pos (hkin.magic.trans hm)]
        exact McoLabel.place_congr hmoved.timing lc _)
      exact ⟨m', n, hinv⟩
    · obtain ⟨w, htake, hlists, hsess⟩ := mcoTakeAction_free (x := x) (a := a) hm
        (h.solo.sameKin hkin) hstep hop
      rw [mcoStep_act htake] at hs
      cases hs
      -- 解放された session は、どの list にもいない
      have hl : ListInv w m n := by
        refine ListInv.sameLists ?_ hlists
        unfold McoWorker.stepped
        rw [heff]
        exact h.toListInv.setSession _
      refine ⟨m, n, hl, h.others, ?_, ?_, ?_⟩
      · have hplace : McoRun.place { r with
            mw := { r.mw.stepped x p lc with worker := w }
            notified := (r.mw.lc x).notifiedAfter a.action r.notified } x = .nowhere := by
          refine if_neg ?_
          show ¬ (w.session x).magic = true
          rw [hsess]
          exact Bool.false_ne_true
        rw [hplace, ← hbefore, ← hself]
        exact h.self
      · show (w.session x).Solo
        rw [hsess]
        have hsolo := h.solo.sameKin hkin
        exact ⟨hsolo.1, hsolo.2, hsolo.3⟩
      · show (w.session x).sessionType = .mco
        rw [hsess]
        exact htype
  · have hm' : (r.mw.session x).magic = false := Bool.eq_false_iff.mpr hm
    have htake : r.mw.takeAction x a = .ok (esqErrorParam, r.mw) := by
      unfold McoWorker.takeAction
      rw [hm', if_neg Bool.false_ne_true]
    rw [mcoStep_act htake] at hs
    cases hs
    have hself := h.self
    unfold McoRun.place at hself
    rw [if_neg hm] at hself
    refine ⟨m, n, h.toListInv, h.others, ?_, h.solo, h.type⟩
    unfold McoRun.place
    rw [if_neg hm]
    exact hself

def McoOp.good (x : Nat) (r : McoRun) : McoOp → Prop
  | .act a => (r.mw.session x).magic = true →
      McoGood (r.mw.session x) (r.mw.lc x) r.notified a.action
  | _ => True

theorem mcoInv_step (h : McoInv x r m n) (hlegal : McoOpLegal x r op) (hgood : op.good x r)
    (hs : mcoStep x r op = some r') : ∃ m' n', McoInv x r' m' n' := by
  cases op with
  | act a => exact h.act hlegal hgood hs
  | list y e =>
    obtain ⟨hy, q, hmove⟩ := hlegal
    unfold mcoStep at hs
    simp only [hmove] at hs
    cases hs
    obtain ⟨m', hl, hat, ho⟩ := h.toListInv.execEffect (h.others y hy) hmove
    exact ⟨m', n, h.moveOther hy (execEffects_session [e] r.mw.worker) hl hat ho⟩
  | joinNew y k =>
    obtain ⟨hy, hq⟩ := hlegal
    cases hs
    have hat := h.others y hy
    rw [hq] at hat
    obtain ⟨n', hl, hat', ho⟩ := h.toListInv.joinNewList hat k
    exact ⟨m, n', h.moveOther hy (joinNewList_session _ _ _) hl hat' ho⟩
  | pickUp k =>
    unfold mcoStep at hs
    cases hpop : r.mw.worker.popNewList k with
    | none =>
      simp only [hpop] at hs
      cases hs
      exact ⟨m, n, h⟩
    | some q =>
      obtain ⟨y, w⟩ := q
      simp only [hpop] at hs
      cases hs
      obtain ⟨n', hl, hat, ho, hsess, hmem⟩ := h.toListInv.popNewList hpop
      have hy : y ≠ x := fun he => h.notMem_new k (he ▸ hmem)
      exact ⟨m, n', h.moveOther hy hsess hl hat ho⟩

/-! ## 乱れる一歩 -/

theorem execEffects_lefts (es : List Effect) (w : Worker) :
    ∀ e ∈ w.lefts, e ∈ (w.execEffects x es).lefts := by
  induction es generalizing w with
  | nil => exact fun _ he => he
  | cons e es ih =>
    intro entry hentry
    refine ih (w.execEffect x e) entry ?_
    cases e with
    | left l => exact List.mem_cons_of_mem _ hentry
    | removeSocketFd =>
      unfold Worker.execEffect
      cases w.poll x <;> exact hentry
    | _ => exact hentry

theorem left_unsound {l : WorkerList} (h : ListInv w m n) (hx : x ∉ m l) (es : List Effect) :
    ¬ ∀ e ∈ (w.execEffects x (.left l :: es)).lefts, e.Sound := by
  intro hall
  obtain ⟨xs, hlinked, hmem⟩ := hall ⟨x, (w.ends l).head, w.links.next⟩
    (execEffects_lefts es _ _ List.mem_cons_self)
  rw [hlinked.unique (h.lists.dll l).1] at hmem
  exact hx hmem

theorem joinTail_twice {l l' : WorkerList} (h : ListInv w m n) (hx : x ∈ m l) (hl : l ≠ l') :
    InList (w.execEffects x [.joinTail l']) l x ∧ InList (w.execEffects x [.joinTail l']) l' x := by
  have hx' : x ∉ m l' := fun hm => hl (h.lists.disjoint hx hm)
  constructor
  · obtain ⟨as, bs, hsplit⟩ := List.append_of_mem hx
    have hdll := h.lists.dll l
    rw [hsplit] at hdll
    have hnd := hdll.nodup
    obtain ⟨q, hseg, rfl, -⟩ := linked_append.mp hdll.1
    refine ⟨as ++ [x], ?_, by simp⟩
    -- `x` の手前までは変わらず、`x` の `next` は NULL になる
    have hends : ((w.execEffects x [.joinTail l']).ends l).head = (w.ends l).head :=
      congrArg Ends.head (Function.update_of_ne hl _ _)
    rw [hends]
    refine linked_append.mpr ⟨some x, hseg.congr fun y hy => ?_, rfl, ?_⟩
    · have hyx : y ≠ x := by
        rintro rfl
        exact (List.nodup_append.mp hnd).2.2 y hy y List.mem_cons_self rfl
      have hy' : y ∉ m l' := by
        intro hm
        have hyl : y ∈ m l := by rw [hsplit]; exact List.mem_append_left _ hy
        exact hl (h.lists.disjoint hyl hm)
      exact (joinTail_links_of_notMem (h.lists.dll l') hy' hyx).1
    · show (joinTail w.links (w.ends l') x).1.next x = none
      have hlast := ((h.lists.dll l').joinTail hx').1
      exact (linked_append.mp hlast).choose_spec.2.2
  · have hdll := (h.lists.dll l').joinTail hx'
    refine ⟨m l' ++ [x], ?_, by simp⟩
    have hends : ((w.execEffects x [.joinTail l']).ends l')
        = (joinTail w.links (w.ends l') x).2 := Function.update_self ..
    rw [hends]
    exact hdll.1

/-- **`McoGood` でない action は、受け付けられると list を乱す。** -/
theorem McoInv.act_breaks (h : McoInv x r m n) (hlegal : McoOpLegal x r (.act a))
    (hm : (r.mw.session x).magic = true)
    (hbad : ¬ McoGood (r.mw.session x) (r.mw.lc x) r.notified a.action) :
    ∃ r', mcoStep x r (.act a) = some r' ∧ ¬ McoSound x r' := by
  obtain ⟨p, lc, hp, hstep⟩ := h.stepMco_eq hm hlegal
  have hset : ListInv (r.mw.worker.setSession x p.session) m n := h.toListInv.setSession _
  have hself : r.place x = (r.mw.lc x).place (r.mw.session x).ready r.notified := if_pos hm
  have hat := h.self
  rw [hself] at hat
  rcases not_mcoGood hbad with ⟨hlc, hk⟩ | ⟨hlc, hwind, hbits, hk⟩
  · obtain ⟨hop, before, after, heff, hbefore⟩ := esqPtOfMco_leaves hlc hp
    obtain ⟨res, htake⟩ := mcoTakeAction_stay hm hstep (Or.inl hop)
    refine ⟨_, mcoStep_act htake, fun hsound => ?_⟩
    have hnowhere : At m n x .nowhere := by
      rcases hlc with hlc | ⟨hlc, -⟩
      · rw [hlc, McoLabel.place, if_neg hk] at hat
        exact hat
      · rw [hlc, McoLabel.place, if_neg hk] at hat
        exact hat
    obtain ⟨m', hl, hat', -⟩ := hset.execEffects before hnowhere hbefore
    refine left_unsound hl (hat'.1 (r.mw.session x).ready.timingList) after ?_
    have hlefts := hsound.lefts
    unfold McoWorker.stepped at hlefts
    dsimp only at hlefts
    rw [heff] at hlefts
    unfold Worker.execEffects at hlefts ⊢
    rw [List.foldl_append] at hlefts
    exact hlefts
  · -- 抜けないまま active list に入る
    rw [hlc, hwind] at hp
    have hin : x ∈ m (r.mw.session x).ready.timingList := by
      rw [hlc, McoLabel.place, if_pos hk] at hat
      exact hat
    unfold esqPtOfMco at hp
    simp only [McoPt.executeCbInstalledSocketFd] at hp
    split at hp
    · cases hp
    · have hbits : (r.mw.session x).ready.eventBits2 ≠ 0 := hbits
      rw [if_pos hbits] at hp
      cases hp
      obtain ⟨res, htake⟩ := mcoTakeAction_stay hm hstep (Or.inl rfl)
      refine ⟨_, mcoStep_act htake, fun hsound => ?_⟩
      have hne : (r.mw.session x).ready.timingList ≠ .active := timingList_ne_active _ _
      obtain ⟨h1, h2⟩ := joinTail_twice hset hin hne
      exact hne (hsound.once _ _ h1 h2)

end

/-! ## run -/

/-- `x` は action をまだ受けていない coroutine の session で、他の session は `others` にいる。 -/
structure McoStart (x : Nat) (r : McoRun) : Prop where
  lists : ∃ m n, ListInv r.mw.worker m n ∧ At m n x .nowhere ∧
    ∀ y, y ≠ x → At m n y (r.others y)
  session : ∃ param, r.mw.session x
    = { esqSessionNew with sessionType := .mco, userParam := param }
  lc : r.mw.lc x = .start

theorem McoStart.inv {x : Nat} {r : McoRun} (h : McoStart x r) : ∃ m n, McoInv x r m n := by
  obtain ⟨m, n, hl, hat, hothers⟩ := h.lists
  obtain ⟨param, hs⟩ := h.session
  refine ⟨m, n, hl, hothers, ?_, ?_, ?_⟩
  · unfold McoRun.place
    rw [hs, h.lc]
    exact hat
  · rw [hs]
    exact ⟨rfl, rfl, rfl⟩
  · rw [hs]

/--
**coroutine の session がどの action をどの順に受けても、list がずっと乱れないのは、
どの action も `McoGood` のとき、そのときに限る。**
-/
theorem mco_membership (x : Nat) (r : McoRun) (hr : McoStart x r) (ops : List McoOp)
    (hlegal : Along (mcoStep x) (McoOpLegal x) r ops) :
    Throughout (mcoStep x) (McoSound x) r ops ↔ Along (mcoStep x) (McoOp.good x) r ops := by
  rw [← throughout_and_along_iff (R := fun _ _ => True) (Q := McoSound x)
    (P := fun r => ∃ m n, McoInv x r m n) ?_ ?_ ?_ ?_ hr.inv hlegal]
  · exact ⟨fun h => ⟨h, along_true⟩, fun h => h.1⟩
  · rintro r op r' ⟨m, n, hinv⟩ hl hgood hs
    exact mcoInv_step hinv hl hgood hs
  · exact fun _ _ _ _ _ => trivial
  · rintro r op ⟨m, n, hinv⟩ hl hbad -
    cases op with
    | act a =>
      obtain ⟨hm, hbad⟩ := Classical.not_imp.mp hbad
      exact hinv.act_breaks hl hm hbad
    | _ => exact absurd trivial hbad
  · rintro r ⟨m, n, hinv⟩
    exact hinv.sound

def soleMco : McoRun where
  mw := {
    worker := Worker.init.setSession 0 { esqSessionNew with sessionType := .mco }
    lc := fun _ => .start }
  notified := 0
  others _ := .nowhere

theorem soleMco_start : McoStart 0 soleMco where
  lists := ⟨fun _ => [], fun _ => [], workerInv_init.toListInv.setSession _,
    ⟨fun _ => by simp, fun _ => by simp⟩, fun _ _ => ⟨fun _ => by simp, fun _ => by simp⟩⟩
  session := ⟨0, rfl⟩
  lc := rfl

/-- fd を仕掛けて待ち、event を一つ受けて再開し、終わるまで。 -/
theorem mco_membership_sample :
    Throughout (mcoStep 0) (McoSound 0) soleMco [.act ⟨.windUp, 0, false⟩,
      .act ⟨.executeCb, 0, false⟩, .act ⟨.addSockFdSingle { fd := 7 }, 0, false⟩,
      .act ⟨.notifyEvent esqEventBitRead, 0, false⟩, .act ⟨.windUp, 0, false⟩,
      .act ⟨.executeCb, 0, false⟩, .act ⟨.windUp, 0, true⟩] := by
  refine (mco_membership 0 soleMco soleMco_start _ ?_).mpr ?_
  · exact along_cons_of_eq rfl ⟨_, rfl⟩ (along_cons_of_eq rfl ⟨_, rfl⟩
      (along_cons_of_eq rfl ⟨_, rfl⟩ (along_cons_of_eq rfl ⟨_, rfl⟩
        (along_cons_of_eq rfl ⟨_, rfl⟩ (along_cons_of_eq rfl ⟨_, rfl⟩
          (along_cons_of_eq rfl ⟨_, rfl⟩ trivial))))))
  · refine along_cons_of_eq rfl (fun _ => trivial) (along_cons_of_eq rfl (fun _ => trivial)
      (along_cons_of_eq rfl (fun _ => trivial) (along_cons_of_eq rfl (fun _ => rfl)
        (along_cons_of_eq rfl (fun _ _ => ?_) (along_cons_of_eq rfl (fun _ => trivial)
          (along_cons_of_eq rfl (fun _ => trivial) trivial))))))
    exact Nat.one_ne_zero

/-- fd を仕掛けた後、動いている間に event と exit が続けて届く。 -/
def secondEventRun : List McoOp := [.act ⟨.windUp, 0, false⟩, .act ⟨.executeCb, 0, false⟩,
  .act ⟨.addSockFdSingle { fd := 7 }, 0, false⟩, .act ⟨.notifyEvent esqEventBitRead, 0, false⟩,
  .act ⟨.notifyExit, 0, false⟩]

/-- **二つ目の event は、session がもういない timing list から session を抜く。** -/
theorem mco_second_event_leaves_twice :
    Along (mcoStep 0) (McoOpLegal 0) soleMco secondEventRun
      ∧ ¬ Throughout (mcoStep 0) (McoSound 0) soleMco secondEventRun := by
  refine ⟨?_, fun h => ?_⟩
  · exact along_cons_of_eq rfl ⟨_, rfl⟩ (along_cons_of_eq rfl ⟨_, rfl⟩
      (along_cons_of_eq rfl ⟨_, rfl⟩ (along_cons_of_eq rfl ⟨_, rfl⟩
        (along_cons_of_eq rfl ⟨_, rfl⟩ trivial))))
  · -- 最後に抜いたとき、no time の list は空だった
    have hlast : ((runFrom (mcoStep 0) soleMco secondEventRun).bind fun r =>
        r.mw.worker.lefts.head?.map fun e => (e.session, e.head)) = some (0, none) := by
      decide +kernel
    obtain ⟨r, hr, hlast⟩ := Option.bind_eq_some_iff.mp hlast
    obtain ⟨e, he, hlast⟩ := Option.map_eq_some_iff.mp hlast
    obtain ⟨xs, hxs, hmem⟩ := (h.last hr).lefts e (List.mem_of_mem_head? he)
    rw [(Prod.mk.inj hlast).2] at hxs
    rw [hxs.unique (linked_nil.mpr rfl)] at hmem
    cases hmem

end Esq
