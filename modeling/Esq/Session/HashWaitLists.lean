import Esq.Session.HashWait
import Esq.Session.Solo

/-!
# hash lock を待つ session と list

hash lock の状態機械の label と、session のいる list が合っていることを調べる。
`__winded_up` で timeout か exit を受けた session は label だけが `__active` になり、
timing list に残る。次の tick は `__active` の session に `ACTION_NOTIFY_TIMEOUT` を渡すことになり、
`INVALID_ACTION_TYPE` でプロセスが終わる。起こされた session の `ACTION_PICK_UP` も、
`__winded_up` では受け付けられない。

* `HashInv.takeAction` — 状態機械が受け付ける action は、どれも label と list を合わせて動かす
* `hash_wait_membership` — worker が渡しうるどの action の列でも、label と list がずっと合い
  `INVALID_ACTION_TYPE` に着かないのは、待っている session に timeout も exit も渡らず、
  wake-up list からの `ACTION_PICK_UP` も渡らないとき、そのときに限る
-/

namespace Esq

open Infra

/-! ## label が名指す list -/

def HashLockLabel.place (s : Session) : HashLockLabel → Place
  | .waitForCpu => .newList
  | .windedUp => .list s.timingList
  | .active => .list .active
  | _ => .nowhere

theorem HashLockLabel.place_cases (lc : HashLockLabel) (s : Session) :
    (lc = .waitForCpu ∧ lc.place s = .newList) ∨ (lc = .windedUp ∧ lc.place s = .list s.timingList)
      ∨ (lc = .active ∧ lc.place s = .list .active) ∨ lc.place s = .nowhere := by
  cases lc with
  | waitForCpu => exact Or.inl ⟨rfl, rfl⟩
  | windedUp => exact Or.inr (Or.inl ⟨rfl, rfl⟩)
  | active => exact Or.inr (Or.inr (Or.inl ⟨rfl, rfl⟩))
  | _ => exact Or.inr (Or.inr (Or.inr rfl))

/-- 状態が名指す list。他の状態機械の session は問わない。 -/
def HashWorker.place (hw : HashWorker) (x : Nat) : Place :=
  if (hw.session x).magic then
    match (hw.session x).sessionType with
    | .new => .nowhere
    | .waitForHashLock => (hw.wait x).lc.place (hw.session x)
    | _ => .anywhere
  else .nowhere

/-! ## 状態機械の一歩 -/

def HashLockLabel.accepts : HashLockLabel → Action → Bool
  | .initial, .windUp => true
  | .initial, .windUpRr => true
  | .waitForCpu, .pickUp => true
  | .windedUp, .notifyEvent _ => true
  | .active, .notifyEvent _ => true
  | .active, .notifyExit => true
  | .active, .executeCb => true
  | .executeCb, .windUp => true
  | .executeCb, .addSockFdMulti _ => true
  | .executeCb, .addSockFdSingle _ => true
  | .executeCb, .notifyExit => true
  | .executeCb, .notifyEvent _ => true
  | .executeCb, .hashLockWrite => true
  | .executeCb, .hashLockRead => true
  | _, _ => false

/-- 一歩の結果は四通りである。`before` は一歩の前に session がいる所。 -/
inductive HashOutcome (before : Place) (p : PtRun) (h : HashWait) : Prop where
  /-- 次の label で止まる -/
  | stay (hop : p.session.postOp = popNoOp ∨ p.session.postOp = popReturnValue)
      (htype : p.session.sessionType = .waitForHashLock)
      (hmoves : before.moves p.effects = some (h.lc.place p.session))
  /-- new list に加わる -/
  | joinNew (k : NewList) (hop : p.session.postOp = k.postOp) (heff : p.effects = [])
      (hbefore : before = .nowhere) (htype : p.session.sessionType = .waitForHashLock)
      (hlc : h.lc = .waitForCpu)
  /-- 解放される -/
  | free (hop : p.session.postOp = popFreeSession ∨ p.session.postOp = 5) (heff : p.effects = [])
      (hbefore : before = .nowhere)
  /-- 型を切り替える -/
  | switch (hop : p.session.postOp = popSwitchSessionType) (heff : p.effects = [])
      (hbefore : before = .nowhere)
      (htype : p.session.sessionType = .socketCb ∨ p.session.sessionType = .multiSocketCb ∨
        p.session.sessionType = .waitForHashLock)

section

variable {s : Session} {h : HashWait} {action : Action} {params : HashLockParams} {fetch : Int}

/-- 一歩の前に session がいる所。`ACTION_PICK_UP` を受ける session は new list から取られている。 -/
def HashWait.placeBefore (h : HashWait) (s : Session) (action : Action) : Place :=
  if action = .pickUp then .nowhere else h.lc.place s

theorem tryFetchHashLock_outcome (htype : s.sessionType = .waitForHashLock) :
    HashOutcome .nowhere (HashLockPt.tryFetchHashLock { session := s } fetch).1
      { h with lc := (HashLockPt.tryFetchHashLock { session := s } fetch).2 } := by
  unfold HashLockPt.tryFetchHashLock
  split
  · split
    · exact .stay (Or.inl rfl) htype rfl
    · exact .stay (Or.inl rfl) htype rfl
  · split
    · exact .stay (Or.inl rfl) htype rfl
    · exact .stay (Or.inl rfl) htype rfl

/-- **受け付ける action の一歩は、label の名指す list に session を移す。** -/
theorem esqPtOfHashLock_outcome (htype : s.sessionType = .waitForHashLock)
    (hacc : h.lc.accepts action = true) :
    ∃ p h', esqPtOfHashLock s h action params fetch = .ok (p, h')
      ∧ HashOutcome (h.placeBefore s action) p h' ∧ SameKin s p.session := by
  obtain ⟨lc, idx, state⟩ := h
  unfold esqPtOfHashLock HashWait.placeBefore
  dsimp only at hacc ⊢
  cases lc with
  | start => cases hacc
  | die => cases hacc
  | initial =>
    cases action with
    | windUp =>
      exact ⟨_, _, rfl, .joinNew .localNew rfl rfl rfl htype rfl, ⟨rfl, rfl, rfl, rfl, rfl⟩⟩
    | windUpRr =>
      exact ⟨_, _, rfl, .joinNew .globalNew rfl rfl rfl htype rfl, ⟨rfl, rfl, rfl, rfl, rfl⟩⟩
    | _ => cases hacc
  | waitForCpu =>
    cases action with
    | pickUp =>
      refine ⟨_, _, rfl, ?_, ?_⟩
      · rw [if_pos rfl]
        exact tryFetchHashLock_outcome (h := ⟨.waitForCpu, idx, state⟩) htype
      · show SameKin s (HashLockPt.tryFetchHashLock { session := s } fetch).1.session
        unfold HashLockPt.tryFetchHashLock
        split
        · split <;> exact ⟨rfl, rfl, rfl, rfl, rfl⟩
        · split <;> exact ⟨rfl, rfl, rfl, rfl, rfl⟩
    | _ => cases hacc
  | windedUp =>
    cases action with
    | notifyEvent bits =>
      refine ⟨_, _, rfl, .stay (Or.inl rfl) htype ?_, ⟨rfl, rfl, rfl, rfl, rfl⟩⟩
      simp [Place.moves, Place.move, HashLockLabel.place, Session.timingList]
    | _ => cases hacc
  | active =>
    cases action with
    | notifyEvent bits =>
      exact ⟨_, _, rfl, .stay (Or.inl rfl) htype rfl, ⟨rfl, rfl, rfl, rfl, rfl⟩⟩
    | notifyExit => exact ⟨_, _, rfl, .stay (Or.inl rfl) htype rfl, ⟨rfl, rfl, rfl, rfl, rfl⟩⟩
    | executeCb => exact ⟨_, _, rfl, .stay (Or.inr rfl) htype rfl, ⟨rfl, rfl, rfl, rfl, rfl⟩⟩
    | _ => cases hacc
  | executeCb =>
    cases action with
    | windUp => exact ⟨_, _, rfl, .free (Or.inl rfl) rfl rfl, ⟨rfl, rfl, rfl, rfl, rfl⟩⟩
    | addSockFdMulti q =>
      exact ⟨_, _, rfl, .switch rfl rfl rfl (Or.inr (Or.inl rfl)), ⟨rfl, rfl, rfl, rfl, rfl⟩⟩
    | addSockFdSingle q =>
      exact ⟨_, _, rfl, .switch rfl rfl rfl (Or.inl rfl), ⟨rfl, rfl, rfl, rfl, rfl⟩⟩
    | notifyExit => exact ⟨_, _, rfl, .stay (Or.inl rfl) htype rfl, ⟨rfl, rfl, rfl, rfl, rfl⟩⟩
    | notifyEvent bits =>
      exact ⟨_, _, rfl, .stay (Or.inl rfl) htype rfl, ⟨rfl, rfl, rfl, rfl, rfl⟩⟩
    | hashLockWrite =>
      exact ⟨_, _, rfl, .switch rfl rfl rfl (Or.inr (Or.inr rfl)), ⟨rfl, rfl, rfl, rfl, rfl⟩⟩
    | hashLockRead => exact ⟨_, _, rfl, .free (Or.inr rfl) rfl rfl, ⟨rfl, rfl, rfl, rfl, rfl⟩⟩
    | _ => cases hacc

end

/-! ## 不変量 -/

def HashWorker.Solitary (hw : HashWorker) (x : Nat) : Prop :=
  (hw.session x).magic = true →
    (hw.session x).sessionType = .new ∨ (hw.session x).sessionType = .waitForHashLock →
    (hw.session x).Solo

structure HashInv (hw : HashWorker) (m : WorkerList → List Nat) (n : NewList → List Nat) : Prop
    extends ListInv hw.worker m n where
  place : ∀ x, At m n x (hw.place x)
  solo : ∀ x, hw.Solitary x

section

variable {hw hw' : HashWorker} {m m' : WorkerList → List Nat} {n n' : NewList → List Nat}
  {x : Nat} {a : HashAction}

structure Rewrote (hw hw' : HashWorker) (x : Nat) (s : Session) (h : HashWait) : Prop where
  session : hw'.worker.session = Function.update hw.worker.session x s
  wait : hw'.wait = Function.update hw.wait x h

theorem Rewrote.session_self {s : Session} {h : HashWait} (hr : Rewrote hw hw' x s h) :
    hw'.session x = s := by
  unfold HashWorker.session
  rw [hr.session, Function.update_self]

theorem Rewrote.wait_self {s : Session} {h : HashWait} (hr : Rewrote hw hw' x s h) :
    hw'.wait x = h := by
  rw [hr.wait, Function.update_self]

theorem Rewrote.session_of_ne {s : Session} {h : HashWait} (hr : Rewrote hw hw' x s h) {y : Nat}
    (hy : y ≠ x) : hw'.session y = hw.session y := by
  unfold HashWorker.session
  rw [hr.session, Function.update_of_ne hy]

theorem Rewrote.wait_of_ne {s : Session} {h : HashWait} (hr : Rewrote hw hw' x s h) {y : Nat}
    (hy : y ≠ x) : hw'.wait y = hw.wait y := by
  rw [hr.wait, Function.update_of_ne hy]

theorem Rewrote.trans {s s' : Session} {h h' : HashWait} {hw'' : HashWorker}
    (hr : Rewrote hw hw' x s h) (hr' : Rewrote hw' hw'' x s' h') : Rewrote hw hw'' x s' h' where
  session := by rw [hr'.session, hr.session, Function.update_idem]
  wait := by rw [hr'.wait, hr.wait, Function.update_idem]

/-- action を受けている session `x` の他は、不変量を満たしている。 -/
structure HashActing (hw : HashWorker) (m : WorkerList → List Nat) (n : NewList → List Nat)
    (x : Nat) : Prop extends ListInv hw.worker m n where
  place : ∀ y, y ≠ x → At m n y (hw.place y)
  solo : ∀ y, hw.Solitary y

theorem HashInv.acting (h : HashInv hw m n) (x : Nat) : HashActing hw m n x :=
  ⟨h.toListInv, fun y _ => h.place y, h.solo⟩

theorem HashActing.close {s : Session} {h : HashWait} (hact : HashActing hw m n x)
    (hr : Rewrote hw hw' x s h) (hl : ListInv hw'.worker m' n') (ho : Others m m' n n' x)
    (hat : At m' n' x (hw'.place x)) (hsolo : hw'.Solitary x) : HashInv hw' m' n' := by
  refine ⟨hl, fun y => ?_, fun y => ?_⟩
  · by_cases hy : y = x
    · subst hy
      exact hat
    · have hplace : hw'.place y = hw.place y := by
        unfold HashWorker.place
        rw [hr.session_of_ne hy, hr.wait_of_ne hy]
      rw [hplace]
      exact ho y hy _ (hact.place y hy)
  · by_cases hy : y = x
    · subst hy
      exact hsolo
    · unfold HashWorker.Solitary
      rw [hr.session_of_ne hy]
      exact hact.solo y

/-! ## 後始末 -/

theorem hashPostActions_noOp {os : Int} (hop : (hw.session x).postOp = popNoOp) :
    hw.postActions x os = .ok (esqOk, hw) := by
  unfold HashWorker.postActions
  rw [postActions_noOp hop]
  rfl

theorem hashPostActions_returnValue {os : Int} (hop : (hw.session x).postOp = popReturnValue) :
    hw.postActions x os = .ok ((hw.session x).r, hw) := by
  have hw' : hw.worker.postActions x os = .ok ((hw.session x).r, hw.worker) := by
    unfold Worker.postActions
    rw [show (hw.worker.session x).postOp = popReturnValue from hop]
    rfl
  unfold HashWorker.postActions
  rw [hw']
  rfl

theorem hashPostActions_joinNew {os : Int} {k : NewList} (hop : (hw.session x).postOp = k.postOp) :
    hw.postActions x os = .ok (esqOk, { hw with worker := hw.worker.joinNewList k x }) := by
  have hw' : hw.worker.postActions x os = .ok (esqOk, hw.worker.joinNewList k x) := by
    unfold Worker.postActions
    rw [show (hw.worker.session x).postOp = k.postOp from hop]
    cases k <;> rfl
  unfold HashWorker.postActions
  rw [hw']
  rfl

theorem hashPostActions_free (hs : (hw.session x).Solo)
    (hop : (hw.session x).postOp = popFreeSession ∨ (hw.session x).postOp = 5) (os : Int) :
    ∃ w', hw.postActions x os = .ok (esqOk, { hw with worker := w' }) ∧ SameLists hw.worker w'
      ∧ w'.session = Function.update hw.worker.session x { hw.session x with magic := false } := by
  obtain ⟨w', hfree, hlists, hsess⟩ := freeSession_of_solo hs os
  refine ⟨w', ?_, hlists, hsess⟩
  have hw' : hw.worker.postActions x os = .ok (esqOk, w') := by
    unfold Worker.postActions
    rcases hop with hop | hop
    · rw [show (hw.worker.session x).postOp = popFreeSession from hop]
      dsimp only
      rw [if_neg (by decide), if_neg (by decide), if_pos (by decide), hfree]
      rfl
    · rw [show (hw.worker.session x).postOp = 5 from hop]
      dsimp only
      rw [if_neg (by decide), if_neg (by decide), if_pos (by decide), hfree]
      rfl
  unfold HashWorker.postActions
  rw [hw']
  rfl

/-! ## action を渡す -/

theorem hashDispatch_eq {p : PtRun} {h : HashWait}
    (ht : (hw.session x).sessionType = .waitForHashLock)
    (hp : esqPtOfHashLock (hw.session x).ready (hw.wait x) a.action a.params a.fetch = .ok (p, h)) :
    ∃ hw', hw.dispatch x a = .ok hw' ∧ Rewrote hw hw' x p.session h
      ∧ hw'.worker = (hw.worker.setSession x p.session).execEffects x p.effects := by
  refine ⟨{ worker := (hw.worker.setSession x p.session).execEffects x p.effects
            wait := Function.update hw.wait x h }, ?_, ⟨execEffects_session _ _, rfl⟩, rfl⟩
  unfold HashWorker.dispatch
  rw [if_pos ht, hp, ok_bind]

theorem foreignDispatch_eq {p : PtRun} (ht : (hw.session x).sessionType ≠ .waitForHashLock)
    (hp : (hw.session x).ready.step a.action a.os = .ok p) :
    ∃ hw', hw.dispatch x a = .ok hw' ∧ Rewrote hw hw' x p.session (hw.wait x)
      ∧ hw'.worker = (hw.worker.setSession x p.session).execEffects x p.effects := by
  refine ⟨{ hw with worker := (hw.worker.setSession x p.session).execEffects x p.effects },
    ?_, ⟨execEffects_session _ _, (Function.update_eq_self x hw.wait).symm⟩, rfl⟩
  unfold HashWorker.dispatch Worker.dispatch
  rw [if_neg ht, show (hw.worker.session x).ready.step a.action a.os = .ok p from hp]
  rfl

theorem socket_step_start {s : Session} {action : Action} {os : Int} (hl : s.lc = .start)
    (ht : s.sessionType = .socketCb ∨ s.sessionType = .multiSocketCb) :
    ∃ p, s.step action os = .ok p ∧ p.effects = [] ∧ p.session.postOp = popNoOp
      ∧ SameKin s p.session ∧ p.session.sessionType = s.sessionType := by
  unfold Session.step
  rcases ht with ht | ht
  · rw [ht]
    refine ⟨SingleShot.start { session := s } action, ?_, rfl, rfl, ⟨rfl, rfl, rfl, rfl, rfl⟩, ht⟩
    simp only [esqPtOfSingleShotSocket, hl]
  · rw [ht]
    refine ⟨MultiShot.start { session := s } action, ?_, rfl, rfl, ⟨rfl, rfl, rfl, rfl, rfl⟩, ht⟩
    simp only [esqPtOfMultiShotSocket, hl]

theorem hash_switch (hm : (hw.session x).magic = true)
    (ht : (hw.session x).sessionType = .socketCb ∨ (hw.session x).sessionType = .multiSocketCb ∨
      (hw.session x).sessionType = .waitForHashLock) :
    ∃ hw' s h, (hw.restart x).dispatch x a = .ok hw' ∧ Rewrote hw hw' x s h
      ∧ SameLists hw.worker hw'.worker ∧ s.postOp = popNoOp ∧ SameKin (hw.session x) s
      ∧ (hw'.place x = .nowhere ∨ hw'.place x = .anywhere) := by
  have hrestart : Rewrote hw (hw.restart x) x { hw.session x with lc := .start }
      { hw.wait x with lc := .start } := ⟨rfl, rfl⟩
  have hsess := hrestart.session_self
  by_cases hh : (hw.session x).sessionType = .waitForHashLock
  · -- 同じ状態機械の先頭に戻る
    have hp : esqPtOfHashLock ((hw.restart x).session x).ready ((hw.restart x).wait x) a.action
        a.params a.fetch = .ok ((HashLockPt.start
          { session := ((hw.restart x).session x).ready } a.params).1,
            HashWait.begin a.action a.params) := by
      rw [hrestart.wait_self]
      rfl
    obtain ⟨hw', hd, hr, hworker⟩ := hashDispatch_eq (by rw [hsess]; exact hh) hp
    refine ⟨hw', _, _, hd, hrestart.trans hr, ?_, rfl, ?_, Or.inl ?_⟩
    · rw [hworker]
      exact ⟨rfl, rfl, rfl, rfl⟩
    · rw [hsess]
      exact ⟨rfl, rfl, rfl, rfl, rfl⟩
    · unfold HashWorker.place
      rw [hr.session_self, hr.wait_self, hsess]
      simp [HashLockPt.start, Session.ready, hm, hh, HashWait.begin, HashLockLabel.place]
  · have hsock : (hw.session x).sessionType = .socketCb ∨
        (hw.session x).sessionType = .multiSocketCb := by
      rcases ht with ht | ht | ht
      · exact Or.inl ht
      · exact Or.inr ht
      · exact absurd ht hh
    obtain ⟨p, hp, heff, hop, hkin, htype⟩ : ∃ p, ((hw.restart x).session x).ready.step a.action a.os
        = .ok p ∧ p.effects = [] ∧ p.session.postOp = popNoOp
        ∧ SameKin ((hw.restart x).session x).ready p.session
        ∧ p.session.sessionType = ((hw.restart x).session x).ready.sessionType :=
      socket_step_start (by rw [hsess]; rfl) (by rw [hsess]; exact hsock)
    obtain ⟨hw', hd, hr, hworker⟩ := foreignDispatch_eq (by rw [hsess]; exact hh) hp
    rw [hsess] at hkin htype
    refine ⟨hw', _, _, hd, hrestart.trans hr, ?_, hop, ⟨hkin.1, hkin.2, hkin.3, hkin.4, hkin.5⟩,
      Or.inr ?_⟩
    · rw [hworker, heff]
      exact ⟨rfl, rfl, rfl, rfl⟩
    · unfold HashWorker.place
      rw [hr.session_self, hkin.magic, htype]
      rcases hsock with h | h
      · simp [Session.ready, hm, h]
      · simp [Session.ready, hm, h]

theorem HashActing.switch {s : Session} {h : HashWait} (hact : HashActing hw m n x)
    (hr : Rewrote hw hw' x s h) (hl : ListInv hw'.worker m n) (hat : At m n x .nowhere)
    (hm : s.magic = true) (hsolo : s.Solo)
    (ht : s.sessionType = .socketCb ∨ s.sessionType = .multiSocketCb ∨
      s.sessionType = .waitForHashLock) :
    ∃ r hw'', (do
        let hw'' ← (hw'.restart x).dispatch x a
        hw''.postActions x a.os) = .ok (r, hw'') ∧ HashInv hw'' m n := by
  have hs := hr.session_self
  rw [← hs] at hm ht hsolo
  obtain ⟨hw'', s', h', hd, hr', hlists, hop, hkin, hplace⟩ := hash_switch (a := a) hm ht
  refine ⟨esqOk, hw'', ?_, hact.close (hr.trans hr') (hl.sameLists hlists) .refl ?_ ?_⟩
  · rw [hd, ok_bind]
    exact hashPostActions_noOp (by rw [hr'.session_self]; exact hop)
  · rcases hplace with hplace | hplace
    · rw [hplace]
      exact hat
    · rw [hplace]
      trivial
  · intro _ _
    rw [hr'.session_self]
    exact hsolo.sameKin hkin

theorem HashActing.joinNew {s : Session} {h : HashWait} {k : NewList} (hact : HashActing hw m n x)
    (hr : Rewrote hw hw' x s h) (hl : ListInv hw'.worker m n) (hat : At m n x .nowhere)
    (hm : s.magic = true) (hsolo : s.Solo) (ht : s.sessionType = .waitForHashLock)
    (hlc : h.lc = .waitForCpu) :
    ∃ n', HashInv { hw' with worker := hw'.worker.joinNewList k x } m n' := by
  obtain ⟨n', hl', hat', ho⟩ := hl.joinNewList hat k
  have hr' : Rewrote hw { hw' with worker := hw'.worker.joinNewList k x } x s h :=
    ⟨(joinNewList_session hw'.worker k x).trans hr.session, hr.wait⟩
  refine ⟨n', hact.close hr' hl' ho ?_ ?_⟩
  · unfold HashWorker.place
    rw [hr'.session_self, hr'.wait_self, if_pos hm, ht, hlc]
    exact hat'
  · intro _ _
    rw [hr'.session_self]
    exact hsolo

theorem HashActing.free {s : Session} {h : HashWait} {os : Int} (hact : HashActing hw m n x)
    (hr : Rewrote hw hw' x s h) (hl : ListInv hw'.worker m n) (hat : At m n x .nowhere)
    (hsolo : s.Solo) (hop : s.postOp = popFreeSession ∨ s.postOp = 5) :
    ∃ hw'', hw'.postActions x os = .ok (esqOk, hw'') ∧ HashInv hw'' m n := by
  have hs := hr.session_self
  rw [← hs] at hsolo hop
  obtain ⟨w', hpost, hlists, hsess⟩ := hashPostActions_free hsolo hop os
  have hr' : Rewrote hw' { hw' with worker := w' } x { hw'.session x with magic := false }
      (hw'.wait x) := ⟨hsess, (Function.update_eq_self x hw'.wait).symm⟩
  refine ⟨_, hpost, hact.close (hr.trans hr') (hl.sameLists hlists) .refl ?_ ?_⟩
  · unfold HashWorker.place
    rw [hr'.session_self, if_neg Bool.false_ne_true]
    exact hat
  · intro hm _
    rw [hr'.session_self] at hm
    cases hm

theorem HashActing.stay {s : Session} {h : HashWait} (hact : HashActing hw m n x)
    (hr : Rewrote hw hw' x s h) (hl : ListInv hw'.worker m' n) (ho : Others m m' n n x)
    (hat : At m' n x (h.lc.place s)) (hm : s.magic = true) (hsolo : s.Solo)
    (ht : s.sessionType = .waitForHashLock) : HashInv hw' m' n := by
  refine hact.close hr hl ho ?_ ?_
  · unfold HashWorker.place
    rw [hr.session_self, hr.wait_self, if_pos hm, ht]
    exact hat
  · intro _ _
    rw [hr.session_self]
    exact hsolo

/-- **状態機械が受け付ける action は、label と list を合わせて動かす。** -/
theorem HashActing.takeAction (hact : HashActing hw m n x) (hwait : hw.waiting x = true)
    (hat : At m n x ((hw.wait x).placeBefore (hw.session x) a.action))
    (hacc : (hw.wait x).lc.accepts a.action = true) :
    ∃ r hw' m' n', hw.takeAction x a = .ok (r, hw') ∧ HashInv hw' m' n' := by
  unfold HashWorker.waiting at hwait
  rw [Bool.and_eq_true, decide_eq_true_eq] at hwait
  obtain ⟨hm, ht⟩ := hwait
  obtain ⟨p, h, hp, hout, hkin⟩ :=
    esqPtOfHashLock_outcome (s := (hw.session x).ready) (h := hw.wait x) ht hacc
  have hsolo : p.session.Solo :=
    (hact.solo x hm (Or.inr ht)).sameKin ⟨hkin.1, hkin.2, hkin.3, hkin.4, hkin.5⟩
  have hmagic : p.session.magic = true := hkin.magic.trans hm
  obtain ⟨hw1, hd, hr, hworker⟩ := hashDispatch_eq ht hp
  have hsess := hr.session_self
  have hset : ListInv (hw.worker.setSession x p.session) m n := hact.toListInv.setSession _
  unfold HashWorker.takeAction
  rw [if_pos hm, hd, ok_bind, hsess]
  -- list を動かさない一歩では、欄だけが変わっている
  have hquiet : p.effects = [] → ListInv hw1.worker m n := by
    intro heff
    rw [hworker, heff]
    exact hset
  cases hout with
  | stay hop htype hmoves =>
    obtain ⟨m', hl, hat', ho⟩ := ListInv.execEffects p.effects hset hat hmoves
    rw [← hworker] at hl
    have hinv := hact.stay hr hl ho hat' hmagic hsolo htype
    rcases hop with hop | hop
    · rw [hop, if_neg (by decide), hashPostActions_noOp (by rw [hsess]; exact hop)]
      exact ⟨_, _, _, _, rfl, hinv⟩
    · rw [hop, if_neg (by decide), hashPostActions_returnValue (by rw [hsess]; exact hop)]
      exact ⟨_, _, _, _, rfl, hinv⟩
  | joinNew k hop heff hbefore htype hlc =>
    obtain ⟨n', hinv⟩ :=
      hact.joinNew hr (hquiet heff) (hbefore ▸ hat) hmagic hsolo htype hlc (k := k)
    rw [hop, if_neg (by cases k <;> decide), hashPostActions_joinNew (by rw [hsess]; exact hop)]
    exact ⟨_, _, _, _, rfl, hinv⟩
  | free hop heff hbefore =>
    have hsw : wantsSwitch p.session.postOp = false := by
      rcases hop with hop | hop
      · rw [hop]
        decide
      · rw [hop]
        decide
    obtain ⟨hw2, hpost, hinv⟩ := hact.free hr (hquiet heff) (hbefore ▸ hat) hsolo hop
    rw [hsw, if_neg Bool.false_ne_true, hpost]
    exact ⟨_, _, _, _, rfl, hinv⟩
  | switch hop heff hbefore htype =>
    obtain ⟨r, hw2, heq, hinv⟩ :=
      hact.switch (a := a) hr (hquiet heff) (hbefore ▸ hat) hmagic hsolo htype
    rw [hop, if_pos (by decide), heq]
    exact ⟨_, _, _, _, rfl, hinv⟩

theorem HashActing.takeAction_new (hact : HashActing hw m n x) (hm : (hw.session x).magic = true)
    (ht : (hw.session x).sessionType = .new) (hat : At m n x .nowhere)
    (ha : (∃ state : HashLockState, a.action = state.action)
      ∨ (∃ q, a.action = .addSockFdMulti q) ∨ ∃ q, a.action = .addSockFdSingle q) :
    ∃ r hw', hw.takeAction x a = .ok (r, hw') ∧ HashInv hw' m n := by
  obtain ⟨p, hp, heff, hop, hkin, htype⟩ : ∃ p, (hw.session x).ready.step a.action a.os = .ok p
      ∧ p.effects = [] ∧ p.session.postOp = popSwitchSessionType
      ∧ SameKin (hw.session x) p.session
      ∧ (p.session.sessionType = .socketCb ∨ p.session.sessionType = .multiSocketCb ∨
        p.session.sessionType = .waitForHashLock) := by
    unfold Session.step
    rw [show (hw.session x).ready.sessionType = .new from ht]
    rcases ha with ⟨state, ha⟩ | ⟨q, ha⟩ | ⟨q, ha⟩
    · rw [ha]
      cases state with
      | read => exact ⟨_, rfl, rfl, rfl, ⟨rfl, rfl, rfl, rfl, rfl⟩, Or.inr (Or.inr rfl)⟩
      | write => exact ⟨_, rfl, rfl, rfl, ⟨rfl, rfl, rfl, rfl, rfl⟩, Or.inr (Or.inr rfl)⟩
    · rw [ha]
      exact ⟨_, rfl, rfl, rfl, ⟨rfl, rfl, rfl, rfl, rfl⟩, Or.inr (Or.inl rfl)⟩
    · rw [ha]
      exact ⟨_, rfl, rfl, rfl, ⟨rfl, rfl, rfl, rfl, rfl⟩, Or.inl rfl⟩
  obtain ⟨hw1, hd, hr, hworker⟩ := foreignDispatch_eq (by rw [ht]; decide) hp
  have hl : ListInv hw1.worker m n := by
    rw [hworker, heff]
    exact hact.toListInv.setSession _
  obtain ⟨r, hw2, heq, hinv⟩ := hact.switch (a := a) hr hl hat (hkin.magic.trans hm)
    ((hact.solo x hm (Or.inl ht)).sameKin hkin) htype
  refine ⟨r, hw2, ?_, hinv⟩
  unfold HashWorker.takeAction
  rw [if_pos hm, hd, ok_bind, hr.session_self, hop, if_pos (by decide), heq]

end

/-! ## worker が渡しうる action -/

/-- 他の状態機械の session が行ってよい操作。 -/
def ForeignLegal (hw : HashWorker) (x : Nat) : ForeignOp → Prop
  | .list e => OtherLegal hw.worker x (.list e)
  | .joinNew k => OtherLegal hw.worker x (.joinNew k)
  | .request _ _ => Located hw.worker x .nowhere ∧ (hw.session x).Solo
  | .free => Located hw.worker x .nowhere

def HashWorker.newborn (hw : HashWorker) (x : Nat) : Bool :=
  (hw.session x).magic && (hw.session x).sessionType = .new

/--
worker が渡しうる操作。

tick は timing list で見つけた session に、exit は list で見つけた session に、
`ACTION_EXECUTE_CB` は active list で見つけた session に渡る。`ACTION_WIND_UP` は組み立て中の
session と callback から戻った session に、event は待っているか動いている session に、
wake-up list からの `ACTION_PICK_UP` はロックを求め終えて callback を待つ session に渡る。
-/
def HashOpDeliverable (hw : HashWorker) : HashOp → Prop
  | .new x => (hw.session x).magic = false
  | .request x _ _ => hw.newborn x = true ∨ (hw.waiting x = true ∧ (hw.wait x).lc = .executeCb)
  | .socket x _ _ => hw.newborn x = true ∨ (hw.waiting x = true ∧ (hw.wait x).lc = .executeCb)
  | .windUp x => hw.waiting x = true ∧ ((hw.wait x).lc = .initial ∨ (hw.wait x).lc = .executeCb)
  | .windUpRr x => hw.waiting x = true ∧ (hw.wait x).lc = .initial
  | .pickUp _ _ => True
  | .wakeUp x _ => hw.waiting x = true ∧ ((hw.wait x).lc = .windedUp ∨ (hw.wait x).lc = .active)
  | .notifyEvent x _ => hw.waiting x = true ∧ ((hw.wait x).lc = .windedUp
      ∨ (hw.wait x).lc = .active ∨ (hw.wait x).lc = .executeCb)
  | .timeout x => hw.waiting x = true ∧ ∃ l, l.timed = true ∧ InList hw.worker l x
  | .exit x => hw.waiting x = true ∧ ∃ l, InList hw.worker l x
  | .execute x => hw.waiting x = true ∧ InList hw.worker .active x
  | .foreign x op => hw.foreign x = true ∧ ForeignLegal hw x op

/-- 待っている session に、timeout か exit か wake-up list からの `ACTION_PICK_UP` を渡す。 -/
def HashOp.endsWait (hw : HashWorker) : HashOp → Prop
  | .timeout x => (hw.wait x).lc = .windedUp
  | .exit x => (hw.wait x).lc = .windedUp
  | .wakeUp _ _ => True
  | _ => False

/-- hash lock を待つ session は、`__winded_up` のときちょうど timeout の list に、
`__active` のときちょうど active list にいる。 -/
def HashPlaced (hw : HashWorker) : Prop :=
  ∀ x, hw.waiting x = true →
    (InList hw.worker (hw.session x).timingList x ↔ (hw.wait x).lc = .windedUp)
      ∧ (InList hw.worker .active x ↔ (hw.wait x).lc = .active)

section

variable {hw hw' : HashWorker} {m : WorkerList → List Nat} {n : NewList → List Nat} {x : Nat}
  {a : HashAction}

theorem HashWorker.waiting_iff : hw.waiting x = true ↔
    (hw.session x).magic = true ∧ (hw.session x).sessionType = .waitForHashLock := by
  unfold HashWorker.waiting
  rw [Bool.and_eq_true, decide_eq_true_eq]

theorem HashWorker.place_of_waiting (h : hw.waiting x = true) :
    hw.place x = (hw.wait x).lc.place (hw.session x) := by
  obtain ⟨hm, ht⟩ := HashWorker.waiting_iff.mp h
  unfold HashWorker.place
  rw [if_pos hm, ht]

theorem HashInv.at_of_waiting (hinv : HashInv hw m n) (h : hw.waiting x = true) :
    At m n x ((hw.wait x).lc.place (hw.session x)) :=
  HashWorker.place_of_waiting h ▸ hinv.place x

theorem HashInv.of_inList {l : WorkerList} (hinv : HashInv hw m n) (h : hw.waiting x = true)
    (hl : InList hw.worker l x) :
    ((hw.wait x).lc = .windedUp ∧ l = (hw.session x).timingList)
      ∨ ((hw.wait x).lc = .active ∧ l = .active) := by
  have hmem : x ∈ m l := hinv.inList_iff.mp hl
  have hat := hinv.at_of_waiting h
  rcases HashLockLabel.place_cases (hw.wait x).lc (hw.session x) with
    ⟨-, hp⟩ | ⟨hlc, hp⟩ | ⟨hlc, hp⟩ | hp
  · rw [hp] at hat
    obtain ⟨k, hk⟩ := hat
    exact absurd hk (hinv.apart hmem)
  · rw [hp] at hat
    exact Or.inl ⟨hlc, hinv.lists.disjoint hmem hat⟩
  · rw [hp] at hat
    exact Or.inr ⟨hlc, hinv.lists.disjoint hmem hat⟩
  · rw [hp] at hat
    exact absurd hmem (hat.1 l)

theorem HashInv.of_mem_new {k : NewList} (hinv : HashInv hw m n) (h : hw.waiting x = true)
    (hk : x ∈ n k) : (hw.wait x).lc = .waitForCpu := by
  have hat := hinv.at_of_waiting h
  rcases HashLockLabel.place_cases (hw.wait x).lc (hw.session x) with
    ⟨hlc, -⟩ | ⟨-, hp⟩ | ⟨-, hp⟩ | hp
  · exact hlc
  · rw [hp] at hat
    exact absurd hk (hinv.apart hat)
  · rw [hp] at hat
    exact absurd hk (hinv.apart hat)
  · rw [hp] at hat
    exact absurd hk (hat.2 k)

theorem HashInv.placed (hinv : HashInv hw m n) : HashPlaced hw := by
  intro x h
  have hat := hinv.at_of_waiting h
  refine ⟨⟨fun hl => ?_, fun hlc => ?_⟩, ⟨fun hl => ?_, fun hlc => ?_⟩⟩
  · rcases hinv.of_inList h hl with ⟨hlc, -⟩ | ⟨-, hact⟩
    · exact hlc
    · exact absurd hact (timingList_ne_active _ _)
  · rw [hlc] at hat
    exact hinv.inList_iff.mpr hat
  · rcases hinv.of_inList h hl with ⟨-, hact⟩ | ⟨hlc, -⟩
    · exact absurd hact.symm (timingList_ne_active _ _)
    · exact hlc
  · rw [hlc] at hat
    exact hinv.inList_iff.mpr hat

/-! ## 一つの操作 -/

theorem hashAct_eq {r : Int} (h : hw.takeAction x a = .ok (r, hw')) : hw.act x a = .ok hw' := by
  unfold HashWorker.act
  rw [h]
  rfl

theorem HashInv.deliver (hinv : HashInv hw m n) (hwait : hw.waiting x = true)
    (hacc : (hw.wait x).lc.accepts a.action = true) (hpick : a.action ≠ .pickUp) :
    ∃ hw' m' n', hw.act x a = .ok hw' ∧ HashInv hw' m' n' := by
  have hat : At m n x ((hw.wait x).placeBefore (hw.session x) a.action) := by
    unfold HashWait.placeBefore
    rw [if_neg hpick]
    exact hinv.at_of_waiting hwait
  obtain ⟨r, hw', m', n', h, hinv'⟩ := (hinv.acting x).takeAction hwait hat hacc
  exact ⟨hw', m', n', hashAct_eq h, hinv'⟩

theorem HashInv.enter (hinv : HashInv hw m n)
    (hx : hw.newborn x = true ∨ (hw.waiting x = true ∧ (hw.wait x).lc = .executeCb))
    (ha : (∃ state : HashLockState, a.action = state.action)
      ∨ (∃ q, a.action = .addSockFdMulti q) ∨ ∃ q, a.action = .addSockFdSingle q) :
    ∃ hw' m' n', hw.act x a = .ok hw' ∧ HashInv hw' m' n' := by
  rcases hx with hx | ⟨hx, hlc⟩
  · unfold HashWorker.newborn at hx
    rw [Bool.and_eq_true, decide_eq_true_eq] at hx
    obtain ⟨hm, ht⟩ := hx
    have hat : At m n x .nowhere := by
      have hplace := hinv.place x
      unfold HashWorker.place at hplace
      rw [if_pos hm, ht] at hplace
      exact hplace
    obtain ⟨r, hw', h, hinv'⟩ := (hinv.acting x).takeAction_new hm ht hat ha
    exact ⟨hw', m, n, hashAct_eq h, hinv'⟩
  · refine hinv.deliver hx ?_ ?_
    · rcases ha with ⟨state, ha⟩ | ⟨q, ha⟩ | ⟨q, ha⟩
      · rw [hlc, ha]
        cases state <;> rfl
      · rw [hlc, ha]
        rfl
      · rw [hlc, ha]
        rfl
    · rcases ha with ⟨state, ha⟩ | ⟨q, ha⟩ | ⟨q, ha⟩
      · rw [ha]
        cases state <;> decide
      · simp [ha]
      · simp [ha]

theorem HashInv.pickUp {k : NewList} {fetch : Int} (hinv : HashInv hw m n) :
    ∃ hw' m' n', hashStep hw (.pickUp k fetch) = .ok hw' ∧ HashInv hw' m' n' := by
  unfold hashStep
  dsimp only
  cases hpop : hw.worker.popNewList k with
  | none => exact ⟨hw, m, n, rfl, hinv⟩
  | some q =>
    obtain ⟨x, w⟩ := q
    obtain ⟨n', hl, hat, ho, hsess, hmem⟩ := hinv.toListInv.popNewList hpop
    have hs : ∀ y, HashWorker.session { hw with worker := w } y = hw.session y := by
      intro y
      unfold HashWorker.session
      rw [hsess]
    have hplace : ∀ y, HashWorker.place { hw with worker := w } y = hw.place y := by
      intro y
      unfold HashWorker.place
      rw [hs]
    have hact : HashActing { hw with worker := w } m n' x := by
      refine ⟨hl, fun y hy => ?_, fun y => ?_⟩
      · rw [hplace]
        exact ho y hy _ (hinv.place y)
      · unfold HashWorker.Solitary
        rw [hs]
        exact hinv.solo y
    dsimp only
    by_cases hwait : hw.waiting x = true
    · have hlc := hinv.of_mem_new hwait hmem
      rw [if_pos hwait]
      have hwait' : HashWorker.waiting { hw with worker := w } x = true := by
        rw [HashWorker.waiting_iff, hs]
        exact HashWorker.waiting_iff.mp hwait
      obtain ⟨r, hw', m', n'', h, hinv'⟩ := hact.takeAction
        (a := { action := .pickUp, fetch }) hwait' hat (by rw [hlc]; rfl)
      exact ⟨hw', m', n'', hashAct_eq h, hinv'⟩
    · rw [if_neg hwait]
      refine ⟨_, m, n', rfl, hl, fun y => ?_, hact.solo⟩
      by_cases hy : y = x
      · subst hy
        rw [hplace]
        unfold HashWorker.place
        split
        · next hm =>
          split
          · exact hat
          · next ht => exact absurd (HashWorker.waiting_iff.mpr ⟨hm, ht⟩) hwait
          · trivial
        · exact hat
      · exact hact.place y hy

theorem HashInv.foreign {op : ForeignOp} (hinv : HashInv hw m n) (hx : hw.foreign x = true)
    (hlegal : ForeignLegal hw x op) : ∃ m' n', HashInv (hw.foreignStep x op) m' n' := by
  unfold HashWorker.foreign at hx
  simp only [ne_eq, Bool.and_eq_true, decide_not, Bool.not_eq_true', decide_eq_false_iff_not] at hx
  obtain ⟨⟨hm, hhash⟩, hnew⟩ := hx
  have hact := hinv.acting x
  -- 欄が変わらなければ、他の状態機械の session はどこにいてもよい
  have hfree : ∀ {w : Worker} {m' n'}, w.session = hw.worker.session → ListInv w m' n' →
      Others m m' n n' x → HashInv { hw with worker := w } m' n' := by
    intro w m' n' hs hl ho
    have hr : Rewrote hw { hw with worker := w } x (hw.session x) (hw.wait x) :=
      ⟨by rw [hs]; exact (Function.update_eq_self x _).symm,
        (Function.update_eq_self x _).symm⟩
    refine hact.close hr hl ho ?_ ?_
    · unfold HashWorker.place
      rw [hr.session_self, if_pos hm]
      split
      · next ht => exact absurd ht hnew
      · next ht => exact absurd ht hhash
      · trivial
    · unfold HashWorker.Solitary
      rw [hr.session_self]
      exact hinv.solo x
  cases op with
  | list e =>
    obtain ⟨p, q, hat, hmove⟩ := hinv.toListInv.move_of_legal hlegal
    obtain ⟨m', hl, -, ho⟩ := hinv.toListInv.execEffect hat hmove
    exact ⟨m', n, hfree (execEffects_session [e] hw.worker) hl ho⟩
  | joinNew k =>
    obtain ⟨n', hl, -, ho⟩ := hinv.toListInv.joinNewList (hinv.located_iff.mp hlegal) k
    exact ⟨m, n', hfree (joinNewList_session _ _ _) hl ho⟩
  | request state params =>
    obtain ⟨hat, hsolo⟩ := hlegal
    have hr : Rewrote hw (hw.foreignStep x (.request state params)) x
        (HashLockPt.start { session := ({ hw.session x with
          sessionType := .waitForHashLock, lc := .start } : Session).ready } params).1.session
        (HashWait.begin state.action params) := ⟨rfl, rfl⟩
    refine ⟨m, n, hact.stay hr (hinv.toListInv.setSession _) .refl ?_ hm ?_ rfl⟩
    · exact hinv.located_iff.mp hat
    · exact ⟨hsolo.1, hsolo.2, hsolo.3⟩
  | free =>
    have hr : Rewrote hw (hw.foreignStep x .free) x { hw.session x with magic := false }
        (hw.wait x) := ⟨rfl, (Function.update_eq_self x _).symm⟩
    refine ⟨m, n, hact.close hr (hinv.toListInv.setSession _) .refl ?_ ?_⟩
    · unfold HashWorker.place
      rw [hr.session_self, if_neg Bool.false_ne_true]
      exact hinv.located_iff.mp hlegal
    · intro hm' _
      rw [hr.session_self] at hm'
      cases hm'

theorem HashInv.new (hinv : HashInv hw m n) (hm : (hw.session x).magic = false) :
    HashInv { hw with worker := hw.worker.setSession x esqSessionNew } m n := by
  have hr : Rewrote hw { hw with worker := hw.worker.setSession x esqSessionNew } x esqSessionNew
      (hw.wait x) := ⟨rfl, (Function.update_eq_self x _).symm⟩
  refine (hinv.acting x).close hr (hinv.toListInv.setSession _) .refl ?_ ?_
  · have hplace := hinv.place x
    unfold HashWorker.place at hplace ⊢
    rw [hm, if_neg Bool.false_ne_true] at hplace
    rw [hr.session_self]
    exact hplace
  · intro _ _
    rw [hr.session_self]
    exact ⟨rfl, rfl, rfl⟩

/-- **worker が渡しうる操作は、待つのを終わらせるものを除いて、不変量を保ち `INVALID_ACTION_TYPE` に
着かない。** -/
theorem hashInv_step {op : HashOp} (hinv : HashInv hw m n) (hdel : HashOpDeliverable hw op)
    (hgood : ¬ op.endsWait hw) : ∃ hw' m' n', hashStep hw op = .ok hw' ∧ HashInv hw' m' n' := by
  cases op with
  | new x => exact ⟨_, m, n, rfl, hinv.new hdel⟩
  | request x state params => exact hinv.enter hdel (Or.inl ⟨state, rfl⟩)
  | socket x multi params =>
    cases multi with
    | true => exact hinv.enter hdel (Or.inr (Or.inl ⟨params, rfl⟩))
    | false => exact hinv.enter hdel (Or.inr (Or.inr ⟨params, rfl⟩))
  | windUp x =>
    obtain ⟨hwait, hlc | hlc⟩ := hdel
    · exact hinv.deliver hwait (by rw [hlc]; rfl) (by simp)
    · exact hinv.deliver hwait (by rw [hlc]; rfl) (by simp)
  | windUpRr x =>
    obtain ⟨hwait, hlc⟩ := hdel
    exact hinv.deliver hwait (by rw [hlc]; rfl) (by simp)
  | pickUp k fetch => exact hinv.pickUp
  | wakeUp x stop => exact absurd trivial hgood
  | notifyEvent x bits =>
    obtain ⟨hwait, hlc | hlc | hlc⟩ := hdel
    · exact hinv.deliver hwait (by rw [hlc]; rfl) (by simp)
    · exact hinv.deliver hwait (by rw [hlc]; rfl) (by simp)
    · exact hinv.deliver hwait (by rw [hlc]; rfl) (by simp)
  | timeout x =>
    -- 正しい所にいる session なら、timing list で見つかるのは `__winded_up` のときだけである
    obtain ⟨hwait, l, hl, hin⟩ := hdel
    rcases hinv.of_inList hwait hin with ⟨hlc, -⟩ | ⟨-, rfl⟩
    · exact absurd hlc hgood
    · cases hl
  | exit x =>
    obtain ⟨hwait, l, hin⟩ := hdel
    rcases hinv.of_inList hwait hin with ⟨hlc, -⟩ | ⟨hlc, -⟩
    · exact absurd hlc hgood
    · exact hinv.deliver hwait (by rw [hlc]; rfl) (by simp)
  | execute x =>
    obtain ⟨hwait, hin⟩ := hdel
    rcases hinv.of_inList hwait hin with ⟨-, hl⟩ | ⟨hlc, -⟩
    · exact absurd hl.symm (timingList_ne_active _ _)
    · exact hinv.deliver hwait (by rw [hlc]; rfl) (by simp)
  | foreign x op =>
    obtain ⟨m', n', hinv'⟩ := hinv.foreign hdel.1 hdel.2
    exact ⟨_, m', n', rfl, hinv'⟩

theorem hashAct_endsWait {bits : Nat} (hwait : hw.waiting x = true)
    (hlc : (hw.wait x).lc = .windedUp)
    (hp : HashLockPt.windedUp { session := (hw.session x).ready } a.action
      = .ok ((({ session := (hw.session x).ready } : PtRun).addEventBits bits).post popNoOp,
        .active)) :
    ∃ hw', hw.act x a = .ok hw' ∧ hw'.waiting x = true ∧ (hw'.wait x).lc = .active
      ∧ (hw'.session x).timingList = (hw.session x).timingList
      ∧ SameLists hw.worker hw'.worker := by
  obtain ⟨hm, ht⟩ := HashWorker.waiting_iff.mp hwait
  have hpt : esqPtOfHashLock (hw.session x).ready (hw.wait x) a.action a.params a.fetch
      = .ok ((({ session := (hw.session x).ready } : PtRun).addEventBits bits).post popNoOp,
        { hw.wait x with lc := .active }) := by
    unfold esqPtOfHashLock
    rw [hlc]
    dsimp only
    rw [hp]
    rfl
  obtain ⟨hw', hd, hr, hworker⟩ := hashDispatch_eq ht hpt
  have hs := hr.session_self
  have hop : (hw'.session x).postOp = popNoOp := by
    rw [hs]
    rfl
  refine ⟨hw', hashAct_eq (r := esqOk) ?_, ?_, ?_, ?_, ?_⟩
  · unfold HashWorker.takeAction
    rw [if_pos hm, hd, ok_bind, hop, if_neg (by decide)]
    exact hashPostActions_noOp hop
  · rw [HashWorker.waiting_iff, hs]
    exact ⟨hm, ht⟩
  · rw [hr.wait_self]
  · rw [hs]
    rfl
  · rw [hworker]
    exact ⟨rfl, rfl, rfl, rfl⟩

theorem hashAct_error {e : Fault} (hwait : hw.waiting x = true)
    (hp : esqPtOfHashLock (hw.session x).ready (hw.wait x) a.action a.params a.fetch = .error e) :
    hw.act x a = .error e := by
  obtain ⟨hm, ht⟩ := HashWorker.waiting_iff.mp hwait
  unfold HashWorker.act HashWorker.takeAction HashWorker.dispatch
  rw [if_pos hm, if_pos ht, hp]
  rfl

/-- **起こされた session は、待っている間 `ACTION_PICK_UP` を受け付けない。** -/
theorem hashStep_wakeUp {stop : Bool} (hwait : hw.waiting x = true)
    (hlc : (hw.wait x).lc = .windedUp ∨ (hw.wait x).lc = .active) :
    hashStep hw (.wakeUp x stop) = .error .invalidActionType := by
  have hwait' : (hw.markWoken x stop).waiting x = true := by
    rw [HashWorker.waiting_iff]
    unfold HashWorker.markWoken HashWorker.session
    dsimp only
    rw [Worker.setSession_self]
    exact HashWorker.waiting_iff.mp hwait
  refine hashAct_error hwait' ?_
  unfold esqPtOfHashLock
  rw [show (hw.markWoken x stop).wait x = hw.wait x from rfl]
  rcases hlc with hlc | hlc
  · rw [hlc]
    rfl
  · rw [hlc]
    rfl

/-- **timeout か exit の後、session は `__active` なのに timing list に残る。** -/
theorem endsWait_breaks {op : HashOp} (hinv : HashInv hw m n) (hdel : HashOpDeliverable hw op)
    (hbad : op.endsWait hw) (hvalid : hashStep hw op ≠ .error .invalidActionType) :
    ∃ hw', hashStep hw op = .ok hw' ∧ ¬ HashPlaced hw' := by
  have hkey : ∀ {x : Nat} {a : HashAction} {bits : Nat}, hw.waiting x = true →
      (hw.wait x).lc = .windedUp →
      HashLockPt.windedUp { session := (hw.session x).ready } a.action
        = .ok ((({ session := (hw.session x).ready } : PtRun).addEventBits bits).post popNoOp,
          .active) → ∃ hw', hw.act x a = .ok hw' ∧ ¬ HashPlaced hw' := by
    intro x a bits hwait hlc hp
    obtain ⟨hw', hact, hwait', hlc', htime, h1, h2, -, -⟩ := hashAct_endsWait hwait hlc hp
    refine ⟨hw', hact, fun hplaced => ?_⟩
    have hin : InList hw'.worker (hw'.session x).timingList x := by
      unfold InList
      rw [h1, h2, htime]
      exact (hinv.placed x hwait).1.mpr hlc
    have hwinded := (hplaced x hwait').1.mp hin
    rw [hlc'] at hwinded
    cases hwinded
  cases op with
  | timeout x => exact hkey hdel.1 hbad rfl
  | exit x => exact hkey hdel.1 hbad rfl
  | wakeUp x stop => exact absurd (hashStep_wakeUp hdel.1 hdel.2) hvalid
  | _ => exact hbad.elim

end

/-! ## run -/

def hashStep? (hw : HashWorker) (op : HashOp) : Option HashWorker := (hashStep hw op).toOption

theorem hashStep?_eq_some {hw hw' : HashWorker} {op : HashOp} :
    hashStep? hw op = some hw' ↔ hashStep hw op = .ok hw' := by
  unfold hashStep?
  cases hashStep hw op <;> simp [Except.toOption]

theorem hashInv_init : HashInv HashWorker.init (fun _ => []) (fun _ => []) where
  toListInv := workerInv_init.toListInv
  place _ := ⟨fun l => by simp, fun k => by simp⟩
  solo _ h := by cases h

/--
run の間ずっと、hash lock を待つ session の label と list が合っていて、`INVALID_ACTION_TYPE` に
着かない。
-/
def HashRunSound (hw : HashWorker) (ops : List HashOp) : Prop :=
  Throughout hashStep? HashPlaced hw ops
    ∧ Along hashStep? (fun hw op => hashStep hw op ≠ .error .invalidActionType) hw ops

end Esq
