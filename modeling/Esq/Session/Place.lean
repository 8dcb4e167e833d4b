import Esq.Session.Worker

/-!
# 状態が名指す list

状態機械の label は、session がどの list にいるべきかを暗に決めている（`Session.place`）。
時間の list は、入るときも出るときもその時点の timeout の欄から選ばれるので、
label と欄と list がいつも揃っていなければならない。

ここでは状態機械の一歩だけを見て、一歩が出す操作が `place` から `place` への
正しい移動であることを示す（`Session.step_outcome`）。
-/

namespace Esq

open Infra

/-! ## 状態が名指す list -/

/-- session のいる所。`anywhere` は他の状態機械が決める。 -/
inductive Place where
  | nowhere
  | newList
  | list (l : WorkerList)
  | anywhere
deriving DecidableEq, Repr

def Lc.place (s ms : Int) : Lc → Place
  | .single .waitForCpu => .newList
  | .multi .waitForCpu => .newList
  | .single .windedUp => .list (timingList s ms)
  | .multi .windedUp => .list (timingList s ms)
  | .single .waitForRemovedThenActive => .list .ofNoTime
  | .multi .waitForRemovedAndWindUp => .list .ofNoTime
  | .multi .waitForRemoved => .list .ofNoTime
  | .multi .waitForWindUp => .list .ofNoTime
  | .single .active => .list .active
  | .multi .active => .list .active
  | _ => .nowhere

/-- 状態が名指す list。解放された session はどの list にもいない。 -/
def Session.place (s : Session) : Place :=
  if s.magic then
    match s.sessionType with
    | .new => .nowhere
    | .noFd => .nowhere
    | .mco => .anywhere
    | .waitForHashLock => if s.lc = .start then .anywhere else .nowhere
    | .socketCb => s.lc.place s.timeouts s.timeoutms
    | .multiSocketCb => s.lc.place s.timeouts s.timeoutms
  else .nowhere

/-! ## 操作による移動 -/

/-- 操作一つで session がどこへ移るか。いない list から抜く操作と、いるのに足す操作は誤りである。 -/
def Place.move : Place → Effect → Option Place
  | .nowhere, .joinHead l => some (.list l)
  | .nowhere, .joinTail l => some (.list l)
  | .list l, .left l' => if l = l' then some .nowhere else none
  | p, .addSocketFd _ _ => some p
  | p, .addSocketFdMultishot _ _ => some p
  | p, .removeSocketFd => some p
  | _, _ => none

def Place.moves : Place → List Effect → Option Place
  | p, [] => some p
  | p, e :: es => match p.move e with
    | none => none
    | some q => Place.moves q es

/-! ## 状態機械の一歩 -/

structure Session.WF (s : Session) : Prop where
  new : s.sessionType = .new ∨ s.sessionType = .noFd → s.haveParentSession = false
  single : s.sessionType = .socketCb → ∃ l, s.lc = .single l
  multi : s.sessionType = .multiSocketCb →
    (∃ l, s.lc = .multi l) ∧ s.timeouts = 0 ∧ s.timeoutms = 0
  removed : s.lc = .single .waitForRemovedThenActive → s.timingList = .ofNoTime

/-- 仕事を終えて、もうどの list にも入らない。 -/
def Session.Retired (s : Session) : Prop :=
  (s.sessionType = .socketCb ∧ s.lc = .single .die) ∨
  (s.sessionType = .multiSocketCb ∧ (s.lc = .multi .die ∨ (s.lc = .multi .executeCb ∧ s.fd = 0))) ∨
  (s.sessionType = .waitForHashLock ∧ s.lc = .single .executeCb)

def NewList.postOp : NewList → Nat
  | .localNew => popJoinLocalNewList
  | .globalNew => popJoinGlobalNewList

/-- 一歩の結果は四通りである。`before` は一歩の前に session がいる所。 -/
inductive Outcome (before : Place) (p : PtRun) : Prop where
  /-- 型を切り替える -/
  | switch (hop : p.session.postOp = popSwitchSessionType) (heff : p.effects = [])
      (hbefore : before = .nowhere)
      (htype : p.session.sessionType = .socketCb ∨ p.session.sessionType = .multiSocketCb ∨
        p.session.sessionType = .waitForHashLock)
  /-- new list に加わる -/
  | joinNew (k : NewList) (hop : p.session.postOp = k.postOp) (heff : p.effects = [])
      (hbefore : before = .nowhere) (hwf : p.session.WF) (hplace : p.session.place = .newList)
  /-- 解放される -/
  | free (hop : p.session.postOp = popFreeSession ∨ p.session.postOp = 5) (hwf : p.session.WF)
      (hmoves : before.moves p.effects = some .nowhere) (hplace : p.session.place = .nowhere)
      (hretired : p.session.haveParentSession = true → p.session.Retired)
  /-- 次の label で止まる -/
  | stay (hop : p.session.postOp = popNoOp ∨ p.session.postOp = popReturnValue)
      (hwf : p.session.WF) (q : Place) (hmoves : before.moves p.effects = some q)
      (hplace : p.session.place = q ∨ p.session.place = .anywhere)

theorem Place.moves_append : ∀ (es fs : List Effect) (p : Place),
    p.moves (es ++ fs) = (p.moves es).bind fun q => q.moves fs
  | [], _, _ => rfl
  | e :: es, fs, p => by
    rw [List.cons_append, Place.moves, Place.moves]
    cases p.move e with
    | none => rfl
    | some q => exact Place.moves_append es fs q

theorem timingList_zero : timingList 0 0 = .ofNoTime := by decide

theorem timingList_ne_active (s ms : Int) : timingList s ms ≠ .active := by
  unfold timingList
  split
  · decide
  split
  · decide
  split
  · decide
  split <;> decide

section

variable {s : Session} {p : PtRun} {os : Int} {action : Action}

/-- 一歩の前に session がいる所。`ACTION_PICK_UP` を受ける session は new list から取られている。 -/
def Session.placeBefore (s : Session) (action : Action) : Place :=
  if action = .pickUp then .nowhere else s.place

theorem Session.wf_single {l : SingleShotLabel} (ht : s.sessionType = .socketCb)
    (hl : s.lc = .single l) (hr : l = .waitForRemovedThenActive → s.timingList = .ofNoTime) :
    s.WF := by
  refine ⟨?_, fun _ => ⟨l, hl⟩, ?_, ?_⟩
  · simp [ht]
  · simp [ht]
  · intro he
    exact hr (by simpa [hl] using he)

theorem Session.wf_multi {l : MultiShotLabel} (ht : s.sessionType = .multiSocketCb)
    (hl : s.lc = .multi l) (hs : s.timeouts = 0) (hms : s.timeoutms = 0) : s.WF := by
  refine ⟨?_, ?_, fun _ => ⟨⟨l, hl⟩, hs, hms⟩, ?_⟩
  · simp [ht]
  · simp [ht]
  · simp [hl]

/-! ### single shot -/

theorem Session.place_single {l : SingleShotLabel} (hm : s.magic = true)
    (ht : s.sessionType = .socketCb) (hl : s.lc = .single l) :
    s.place = (Lc.single l).place s.timeouts s.timeoutms := by
  simp [Session.place, hm, ht, hl]

theorem Outcome.single {before : Place} {l : SingleShotLabel}
    (hop : p.session.postOp = popNoOp ∨ p.session.postOp = popReturnValue)
    (hm : p.session.magic = true) (ht : p.session.sessionType = .socketCb)
    (hl : p.session.lc = .single l)
    (hr : l = .waitForRemovedThenActive → p.session.timingList = .ofNoTime)
    (hmoves : before.moves p.effects
      = some ((Lc.single l).place p.session.timeouts p.session.timeoutms)) : Outcome before p :=
  .stay hop (Session.wf_single ht hl hr) _ hmoves (Or.inl (Session.place_single hm ht hl))

theorem SingleShot.installFd_outcome (hm : s.magic = true) (ht : s.sessionType = .socketCb) :
    Outcome .nowhere (SingleShot.installFd { session := s } os) := by
  unfold SingleShot.installFd
  split
  · split
    · exact .single (l := .active) (Or.inl rfl) hm ht rfl (by simp) rfl
    · exact .single (l := .windedUp) (Or.inl rfl) hm ht rfl (by simp) rfl
  · exact .single (l := .windedUp) (Or.inl rfl) hm ht rfl (by simp) rfl

theorem changeToNoTimingList_moves (p : PtRun) (q : Place)
    (h : q.moves p.effects = some (.list p.session.timingList)) :
    q.moves p.changeToNoTimingList.effects = some (.list .ofNoTime) ∧
      p.changeToNoTimingList.session.timingList = .ofNoTime := by
  unfold PtRun.changeToNoTimingList
  split
  · refine ⟨?_, timingList_zero⟩
    simp only [PtRun.leftTimingList, PtRun.joinTimingList, PtRun.emit, PtRun.set,
      List.append_assoc, Place.moves_append, h]
    simp [Place.moves, Place.move, Session.timingList, timingList_zero]
  · next hz =>
    -- どちらも 0 なら、もう no time の list にいる
    have hno : p.session.timingList = .ofNoTime := by
      rw [not_or, not_ne_iff, not_ne_iff] at hz
      rw [Session.timingList, hz.1, hz.2]
      exact timingList_zero
    rw [← hno]
    exact ⟨h, rfl⟩

theorem changeToNoTimingList_session (p : PtRun) :
    p.changeToNoTimingList.session.magic = p.session.magic ∧
      p.changeToNoTimingList.session.sessionType = p.session.sessionType ∧
      p.changeToNoTimingList.session.postOp = p.session.postOp := by
  unfold PtRun.changeToNoTimingList
  split <;> exact ⟨rfl, rfl, rfl⟩

theorem SingleShot.removeFdThenActive_outcome (hm : p.session.magic = true)
    (ht : p.session.sessionType = .socketCb) (hp : p.session.postOp = popNoOp)
    (he : p.effects = []) :
    Outcome (.list p.session.timingList) (SingleShot.removeFdThenActive p os) := by
  unfold SingleShot.removeFdThenActive
  split
  · split
    · refine .single (l := .active) (Or.inl hp) hm ht rfl (by simp) ?_
      simp [he, Place.moves, Place.move, Session.timingList, Lc.place]
    · simp only
      generalize hp' : ((p.set fun s => { s with fd := 0 }).emit .removeSocketFd) = p'
      have hmoves : (Place.list p.session.timingList).moves p'.effects
          = some (.list p'.session.timingList) := by
        rw [← hp']
        simp [he, Place.moves, Place.move, Session.timingList]
      have hno := changeToNoTimingList_moves p' _ hmoves
      have hsame := changeToNoTimingList_session p'
      refine .single (l := .waitForRemovedThenActive) (Or.inl ?_) ?_ ?_ rfl (fun _ => hno.2)
        hno.1
      · rw [← hp] at *
        exact hsame.2.2.trans (by rw [← hp']; rfl)
      · exact hsame.1.trans (by rw [← hp']; exact hm)
      · exact hsame.2.1.trans (by rw [← hp']; exact ht)
  · refine .single (l := .active) (Or.inl hp) hm ht rfl (by simp) ?_
    simp [he, Place.moves, Place.move, Lc.place]

/-- **single shot の一歩は、label が名指す list から list への移動である。** -/
theorem esqPtOfSingleShotSocket_outcome {l : SingleShotLabel} (hm : s.magic = true)
    (ht : s.sessionType = .socketCb) (hl : s.lc = .single l) (hwf : s.WF)
    (h : esqPtOfSingleShotSocket s action os = .ok p) :
    Outcome (s.placeBefore action) p := by
  have hplace := Session.place_single hm ht hl
  have hbefore : action ≠ .pickUp → s.placeBefore action = _ := fun ha => (if_neg ha).trans hplace
  unfold esqPtOfSingleShotSocket at h
  rw [hl] at h
  cases l with
  | initial =>
    simp only [SingleShot.initial] at h
    split at h
    · cases h
      refine .joinNew .localNew rfl rfl ?_ (Session.wf_single ht rfl (by simp)) ?_
      · simpa [Session.placeBefore, Lc.place] using hplace
      · simp [Session.place, Lc.place, hm, ht]
    · cases h
      refine .joinNew .globalNew rfl rfl ?_ (Session.wf_single ht rfl (by simp)) ?_
      · simpa [Session.placeBefore, Lc.place] using hplace
      · simp [Session.place, Lc.place, hm, ht]
    · split at h
      · cases h
      · cases h
        refine .single (l := .initial) (Or.inl rfl) hm ht rfl (by simp) ?_
        rw [hbefore (by simp)]
        rfl
    · cases h
  | waitForCpu =>
    simp only [SingleShot.waitForCpu] at h
    split at h
    · cases h
      rw [Session.placeBefore, if_pos rfl]
      exact SingleShot.installFd_outcome hm ht
    · cases h
  | windedUp =>
    simp only [SingleShot.windedUp] at h
    split at h
    · cases h
      rw [hbefore (by simp)]
      refine .single (l := .active) (Or.inl rfl) hm ht rfl (by simp) ?_
      simp [Place.moves, Place.move, Lc.place, Session.timingList]
    · cases h
      rw [hbefore (by simp)]
      exact SingleShot.removeFdThenActive_outcome (p := PtRun.post (PtRun.addEventBits
        { session := s } _) popNoOp) hm ht rfl rfl
    · cases h
      rw [hbefore (by simp)]
      exact SingleShot.removeFdThenActive_outcome (p := PtRun.post (PtRun.addEventBits
        { session := s } _) popNoOp) hm ht rfl rfl
    · cases h
  | waitForRemovedThenActive =>
    have hno := hwf.removed hl
    simp only [SingleShot.waitForRemovedThenActive] at h
    split at h
    · cases h
      rw [hbefore (by simp)]
      refine .single (l := .active) (Or.inl rfl) hm ht rfl (by simp) ?_
      simp [Place.moves, Place.move, Lc.place, hno]
    · cases h
      rw [hbefore (by simp)]
      exact .single (l := .waitForRemovedThenActive) (Or.inl rfl) hm ht rfl (fun _ => hno) rfl
    · cases h
  | active =>
    simp only [SingleShot.active] at h
    split at h
    · cases h
      rw [hbefore (by simp)]
      exact .single (l := .active) (Or.inl rfl) hm ht hl (by simp) rfl
    · cases h
      rw [hbefore (by simp)]
      exact .single (l := .active) (Or.inl rfl) hm ht rfl (by simp) rfl
    · cases h
      rw [hbefore (by simp)]
      exact .single (l := .executeCb) (Or.inr rfl) hm ht rfl (by simp) rfl
    · cases h
  | executeCb =>
    simp only [SingleShot.executeCb] at h
    split at h
    · cases h
      rw [hbefore (by simp)]
      exact .free (Or.inl rfl) (Session.wf_single ht rfl (by simp)) rfl
        (by simp [Session.place, Lc.place, hm, ht]) fun _ => Or.inl ⟨ht, rfl⟩
    · cases h
      rw [hbefore (by simp)]
      exact .switch rfl rfl rfl (Or.inr (Or.inl rfl))
    · cases h
      rw [hbefore (by simp)]
      exact .single (l := .executeCb) (Or.inl rfl) hm ht rfl (by simp) rfl
    · cases h
      rw [hbefore (by simp)]
      exact .single (l := .waitForReinstall) (Or.inl rfl) hm ht rfl (by simp) rfl
    · cases h
      rw [hbefore (by simp)]
      exact .single (l := .executeCb) (Or.inl rfl) hm ht rfl (by simp) rfl
    · cases h
      rw [hbefore (by simp)]
      exact .single (l := .executeCb) (Or.inl rfl) hm ht rfl (by simp) rfl
    · cases h
      rw [hbefore (by simp)]
      exact .switch rfl rfl rfl (Or.inr (Or.inr rfl))
    · -- 5 は解放の bit を含むので、切り替わらずに解放される
      cases h
      rw [hbefore (by simp)]
      refine .free (Or.inr rfl) ⟨?_, ?_, ?_, ?_⟩ rfl ?_ fun _ => Or.inr (Or.inr ⟨rfl, hl⟩)
      · simp
      · simp
      · simp
      · simp [hl]
      · simp [Session.place, hm, hl]
    · cases h
  | waitForReinstall =>
    simp only [SingleShot.waitForReinstall] at h
    split at h
    · cases h
      rw [hbefore (by simp)]
      exact SingleShot.installFd_outcome hm ht
    · cases h
      rw [hbefore (by simp)]
      exact .single (l := .waitForReinstall) (Or.inl rfl) hm ht rfl (by simp) rfl
    · cases h
      rw [hbefore (by simp)]
      exact .single (l := .waitForReinstall) (Or.inl rfl) hm ht rfl (by simp) rfl
    · cases h
  | die => cases h

/-! ### multi shot -/

theorem Session.place_multi {l : MultiShotLabel} (hm : s.magic = true)
    (ht : s.sessionType = .multiSocketCb) (hl : s.lc = .multi l) :
    s.place = (Lc.multi l).place s.timeouts s.timeoutms := by
  simp [Session.place, hm, ht, hl]

theorem Outcome.multi {before : Place} {l : MultiShotLabel}
    (hop : p.session.postOp = popNoOp ∨ p.session.postOp = popReturnValue)
    (hm : p.session.magic = true) (ht : p.session.sessionType = .multiSocketCb)
    (hl : p.session.lc = .multi l) (hs : p.session.timeouts = 0) (hms : p.session.timeoutms = 0)
    (hmoves : before.moves p.effects = some ((Lc.multi l).place 0 0)) : Outcome before p := by
  refine .stay hop (Session.wf_multi ht hl hs hms) _ hmoves (Or.inl ?_)
  rw [Session.place_multi hm ht hl, hs, hms]

theorem MultiShot.installFd_outcome (hm : s.magic = true) (ht : s.sessionType = .multiSocketCb)
    (hs : s.timeouts = 0) (hms : s.timeoutms = 0) :
    Outcome .nowhere (MultiShot.installFd { session := s } os) := by
  unfold MultiShot.installFd
  split
  · split
    · exact .multi (l := .active) (Or.inl rfl) hm ht rfl hs hms rfl
    · refine .multi (l := .windedUp) (Or.inl rfl) hm ht rfl hs hms ?_
      simp [Place.moves, Place.move, Lc.place, Session.timingList, hs, hms]
  · refine .multi (l := .windedUp) (Or.inl rfl) hm ht rfl hs hms ?_
    simp [Place.moves, Place.move, Lc.place, Session.timingList, hs, hms]

/-- **multi shot の一歩は、label が名指す list から list への移動である。** -/
theorem esqPtOfMultiShotSocket_outcome {l : MultiShotLabel} (hm : s.magic = true)
    (ht : s.sessionType = .multiSocketCb) (hl : s.lc = .multi l) (hs : s.timeouts = 0)
    (hms : s.timeoutms = 0) (hp : s.postOp = popNoOp)
    (h : esqPtOfMultiShotSocket s action os = .ok p) : Outcome (s.placeBefore action) p := by
  have hplace := Session.place_multi hm ht hl
  rw [hs, hms] at hplace
  have hno : s.timingList = .ofNoTime := by
    rw [Session.timingList, hs, hms]
    exact timingList_zero
  have hbefore : action ≠ .pickUp → s.placeBefore action = _ := fun ha => (if_neg ha).trans hplace
  unfold esqPtOfMultiShotSocket at h
  rw [hl] at h
  cases l with
  | initial =>
    simp only [MultiShot.initial] at h
    split at h
    · cases h
      refine .joinNew .localNew rfl rfl ?_ (Session.wf_multi ht rfl hs hms) ?_
      · simpa [Session.placeBefore, Lc.place] using hplace
      · simp [Session.place, Lc.place, hm, ht]
    · cases h
      refine .joinNew .globalNew rfl rfl ?_ (Session.wf_multi ht rfl hs hms) ?_
      · simpa [Session.placeBefore, Lc.place] using hplace
      · simp [Session.place, Lc.place, hm, ht]
    · cases h
  | waitForCpu =>
    simp only [MultiShot.waitForCpu] at h
    split at h
    · cases h
      rw [Session.placeBefore, if_pos rfl]
      exact MultiShot.installFd_outcome hm ht hs hms
    · cases h
  | windedUp =>
    simp only [MultiShot.windedUp] at h
    split at h
    · cases h
      rw [hbefore (by simp)]
      refine .multi (l := .active) (Or.inl rfl) hm ht rfl hs hms ?_
      simp [Place.moves, Place.move, Lc.place, Session.timingList, hs, hms]
    · cases h
      rw [hbefore (by simp)]
      refine .multi (l := .active) (Or.inl hp) hm ht rfl hs hms ?_
      simp [Place.moves, Place.move, Lc.place, Session.timingList, hs, hms]
    · cases h
  | active =>
    simp only [MultiShot.active] at h
    split at h
    · cases h
      rw [hbefore (by simp)]
      exact .multi (l := .active) (Or.inl rfl) hm ht rfl hs hms rfl
    · cases h
      rw [hbefore (by simp)]
      exact .multi (l := .active) (Or.inl rfl) hm ht rfl hs hms rfl
    · cases h
      rw [hbefore (by simp)]
      exact .multi (l := .executeCb) (Or.inr rfl) hm ht rfl hs hms rfl
    · cases h
  | executeCb =>
    simp only [MultiShot.executeCb] at h
    split at h
    · rw [hbefore (by simp)]
      split at h
      · split at h
        · cases h
          exact .multi (l := .active) (Or.inl hp) hm ht rfl hs hms rfl
        · cases h
          refine .multi (l := .windedUp) (Or.inl rfl) hm ht rfl hs hms ?_
          simp [Place.moves, Place.move, Lc.place, Session.timingList, hs, hms]
      · next hfd =>
        cases h
        rw [not_ne_iff] at hfd
        refine .free (Or.inl rfl) (Session.wf_multi ht hl hs hms) rfl ?_
          fun _ => Or.inr (Or.inl ⟨ht, Or.inr ⟨hl, hfd⟩⟩)
        simp [Session.place, Lc.place, hm, ht, hl]
    · rw [hbefore (by simp)]
      split at h
      · split at h
        · cases h
          exact .multi (l := .executeCb) (Or.inl hp) hm ht rfl hs hms rfl
        · cases h
          refine .multi (l := .waitForRemovedAndWindUp) (Or.inl hp) hm ht rfl hs hms ?_
          simp [Place.moves, Place.move, Lc.place, Session.timingList, hs, hms, timingList_zero]
      · cases h
        exact .multi (l := .executeCb) (Or.inl rfl) hm ht rfl hs hms rfl
    · cases h
      rw [hbefore (by simp)]
      exact .multi (l := .executeCb) (Or.inl rfl) hm ht rfl hs hms rfl
    · cases h
      rw [hbefore (by simp)]
      exact .multi (l := .executeCb) (Or.inl rfl) hm ht rfl hs hms rfl
    · cases h
  | waitForRemovedAndWindUp =>
    simp only [MultiShot.waitForRemovedAndWindUp] at h
    split at h
    · cases h
      rw [hbefore (by simp)]
      exact .multi (l := .waitForWindUp) (Or.inl rfl) hm ht rfl hs hms rfl
    · cases h
      rw [hbefore (by simp)]
      exact .multi (l := .waitForRemoved) (Or.inl rfl) hm ht rfl hs hms rfl
    · cases h
  | waitForRemoved =>
    simp only [MultiShot.waitForRemoved] at h
    split at h
    · cases h
      rw [hbefore (by simp)]
      refine .free (Or.inl rfl) (Session.wf_multi ht rfl hs hms) ?_ ?_
        fun _ => Or.inr (Or.inl ⟨ht, Or.inl rfl⟩)
      · simp [Place.moves, Place.move, Lc.place, hno]
      · simp [Session.place, Lc.place, hm, ht]
    · cases h
      rw [hbefore (by simp)]
      exact .multi (l := .waitForRemoved) (Or.inl rfl) hm ht rfl hs hms rfl
    · cases h
  | waitForWindUp =>
    simp only [MultiShot.waitForWindUp] at h
    split at h
    · cases h
      rw [hbefore (by simp)]
      refine .free (Or.inl rfl) (Session.wf_multi ht rfl hs hms) ?_ ?_
        fun _ => Or.inr (Or.inl ⟨ht, Or.inl rfl⟩)
      · simp [Place.moves, Place.move, Lc.place, hno]
      · simp [Session.place, Lc.place, hm, ht]
    · cases h
      rw [hbefore (by simp)]
      exact .multi (l := .waitForWindUp) (Or.inl rfl) hm ht rfl hs hms rfl
    · cases h
  | die => cases h

theorem esqPtOfNoFd_outcome (hm : s.magic = true)
    (ht : s.sessionType = .new ∨ s.sessionType = .noFd) (hwf : s.WF)
    (h : esqPtOfNoFd s action = .ok p) : Outcome (s.placeBefore action) p := by
  have hplace : s.place = .nowhere := by
    rcases ht with ht | ht <;> simp [Session.place, hm, ht]
  simp only [esqPtOfNoFd] at h
  split at h
  · cases h
    rw [Session.placeBefore, if_neg (by simp), hplace]
    refine .free (Or.inl rfl) ⟨hwf.new, hwf.single, hwf.multi, hwf.removed⟩ rfl ?_ ?_
    · rcases ht with ht | ht <;> simp [Session.place, ht]
    · intro hpar
      have hpar : s.haveParentSession = true := hpar
      rw [hwf.new ht] at hpar
      cases hpar
  all_goals first
    | cases h
      rw [Session.placeBefore, if_neg (by simp), hplace]
      exact .switch rfl rfl rfl (by simp)
    | cases h

/-- **状態機械の一歩の結果は `Outcome` の四通りに限られる。** -/
theorem Session.step_outcome (hm : s.magic = true) (hwf : s.WF) (hp : s.postOp = popNoOp)
    (h : s.step action os = .ok p) : Outcome (s.placeBefore action) p := by
  unfold Session.step at h
  cases ht : s.sessionType with
  | new =>
    rw [ht] at h
    exact esqPtOfNoFd_outcome hm (Or.inl ht) hwf h
  | noFd =>
    rw [ht] at h
    exact esqPtOfNoFd_outcome hm (Or.inr ht) hwf h
  | socketCb =>
    rw [ht] at h
    obtain ⟨l, hl⟩ := hwf.single ht
    exact esqPtOfSingleShotSocket_outcome hm ht hl hwf h
  | multiSocketCb =>
    rw [ht] at h
    obtain ⟨⟨l, hl⟩, hs, hms⟩ := hwf.multi ht
    exact esqPtOfMultiShotSocket_outcome hm ht hl hs hms hp h
  | mco =>
    rw [ht] at h
    cases h
    exact .stay (Or.inl hp) hwf _ rfl (Or.inr (by simp [Session.place, hm, ht]))
  | waitForHashLock =>
    rw [ht] at h
    cases h
    refine .stay (Or.inl hp) hwf _ rfl ?_
    by_cases hl : s.lc = .start
    · exact Or.inr (by simp [Session.place, hm, ht, hl])
    · refine Or.inl ?_
      have : s.place = .nowhere := by simp [Session.place, hm, ht, hl]
      unfold Session.placeBefore
      split
      · exact this
      · rfl

end

end Esq
