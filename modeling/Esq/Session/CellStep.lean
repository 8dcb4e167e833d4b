import Esq.Session.Chassis

/-!
# 一つの action が session の欄に対して行うこと

五つの状態機械の枝をここで一度だけ開く。後の話は、次の三つだけを使う。

* 親子の欄（`Esq.Session.Kin`）は `ACTION_SET_PARENT` と `ACTION_ADD_CHILD` の他では変わらない
* session の型と label は食い違わない（`SessionCell.Tidy`）
* 後始末は、何もしないか new list に加わるか戻り値を返すか（`Calm`）、終わるか（`Ends`）の
  どれかで、型の切り替えは切り替え先の先頭で止まる
-/

namespace Esq

open Infra

/-! ## 見る欄 -/

/-- 型と label が合っていて、protothread の先頭にはいない。 -/
def SessionCell.Tidy (c : SessionCell) : Prop :=
  match c.session.sessionType with
  | .new => True
  | .noFd => True
  | .socketCb => ∃ l, c.session.lc = .single l
  | .multiSocketCb => ∃ l, c.session.lc = .multi l
  | .mco => c.mco ≠ .start
  | .waitForHashLock => c.session.lc = .start ∧ c.wait.lc ≠ .start

def Calm (op : Nat) : Prop :=
  op = popNoOp ∨ op = popReturnValue ∨ op = popJoinLocalNewList ∨ op = popJoinGlobalNewList

/-- session を終わらせる `post_op`。5 は読みのロックを求める枝が書く値である。 -/
def Ends (op : Nat) : Prop := op = popFreeSession ∨ op = 5

def SessionType.IsTarget (t : SessionType) : Prop :=
  t = .socketCb ∨ t = .multiSocketCb ∨ t = .waitForHashLock

structure SameControl (c d : SessionCell) : Prop where
  wait : d.wait = c.wait
  mco : d.mco = c.mco
  sessionType : d.session.sessionType = c.session.sessionType
  lc : d.session.lc = c.session.lc

theorem SameControl.refl (c : SessionCell) : SameControl c c := ⟨rfl, rfl, rfl, rfl⟩

theorem SameControl.tidy {c d : SessionCell} (hs : SameControl c d) (ht : c.Tidy) : d.Tidy := by
  unfold SessionCell.Tidy at ht ⊢
  rw [hs.sessionType, hs.lc, hs.wait, hs.mco]
  exact ht

/-- 一歩の後の session。`T` は、一歩の前に型と label が合っていたことである。 -/
inductive Stepped (T : Prop) (c : SessionCell) : Prop where
  | stay (tidy : T → c.Tidy) (op : Calm c.session.postOp)
  | ends (op : Ends c.session.postOp)
  | switch (op : c.session.postOp = popSwitchSessionType) (type : c.session.sessionType.IsTarget)

/-! ## hash lock と coroutine の状態機械 -/

section

variable {s : Session} {p : PtRun} {action : Action} {os fetch : Int} {isEnd : Bool}
  {h h' : HashWait} {lc lc' : McoLabel} {params : HashLockParams}

theorem HashLockPt.kin_tryFetchHashLock (p : PtRun) :
    (HashLockPt.tryFetchHashLock p fetch).1.session.kin = p.session.kin := by
  unfold HashLockPt.tryFetchHashLock
  split
  · split <;> rfl
  · split <;> rfl

theorem esqPtOfHashLock_kin (hp : esqPtOfHashLock s h action params fetch = .ok (p, h'))
    (hk : action.KeepsKin) : p.session.kin = s.kin := by
  unfold esqPtOfHashLock at hp
  dsimp only at hp
  split at hp
  · cases hp
    rfl
  · obtain ⟨q, hq, heq⟩ := map_eq_ok.mp hp
    cases heq
    simp only [HashLockPt.initial] at hq
    split at hq
    · cases hq
      rfl
    · cases hq
      rfl
    · exact absurd rfl (hk.1 _ _)
    · cases hq
  · obtain ⟨q, hq, heq⟩ := map_eq_ok.mp hp
    cases heq
    simp only [HashLockPt.waitForCpu] at hq
    split at hq <;> cases hq
    exact HashLockPt.kin_tryFetchHashLock _
  · obtain ⟨q, hq, heq⟩ := map_eq_ok.mp hp
    cases heq
    simp only [HashLockPt.windedUp] at hq
    split at hq <;> cases hq <;> rfl
  · obtain ⟨q, hq, heq⟩ := map_eq_ok.mp hp
    cases heq
    simp only [HashLockPt.active] at hq
    split at hq <;> cases hq <;> rfl
  · obtain ⟨q, hq, heq⟩ := map_eq_ok.mp hp
    cases heq
    simp only [HashLockPt.executeCb] at hq
    split at hq
    case h_3 => exact absurd rfl (hk.2 _)
    all_goals
      cases hq <;> rfl
  · cases hp

theorem McoPt.kin_removeSocketFd (p : PtRun) :
    (McoPt.removeSocketFd p os).session = p.session := by
  unfold McoPt.removeSocketFd
  split <;> rfl

theorem esqPtOfMco_kin (hp : esqPtOfMco s lc action os isEnd = .ok (p, lc')) :
    p.session.kin = s.kin := by
  unfold esqPtOfMco at hp
  dsimp only at hp
  split at hp
  · cases hp
    rfl
  · cases action <;> cases hp <;> rfl
  · cases action <;> cases hp <;> rfl
  · simp only [McoPt.executeCb] at hp
    split at hp
    · split at hp
      · cases hp
        rfl
      · split at hp <;> cases hp
        rfl
    · split at hp
      · split at hp <;> cases hp <;> rfl
      · cases hp
        rfl
    · cases hp
      rfl
    · cases hp
      rfl
    · cases hp
  · simp only [McoPt.executeCbInstalledSocketFd] at hp
    split at hp
    · split at hp
      · cases hp
      · split at hp <;> cases hp <;> rfl
    · cases hp
      show Session.kin { (McoPt.removeSocketFd { session := s } os).session with
        postOp := popNoOp, fd := 0 } = s.kin
      rw [McoPt.kin_removeSocketFd]
      rfl
    all_goals
      cases hp <;> rfl

end

/-! ## label と後始末 -/

section

variable {c : SessionCell}

theorem SessionCell.tidy_single {l : SingleShotLabel} (ht : c.session.sessionType = .socketCb)
    (hlc : c.session.lc = .single l) : c.Tidy := by
  unfold SessionCell.Tidy
  rw [ht]
  exact ⟨l, hlc⟩

theorem SessionCell.tidy_multi {l : MultiShotLabel} (ht : c.session.sessionType = .multiSocketCb)
    (hlc : c.session.lc = .multi l) : c.Tidy := by
  unfold SessionCell.Tidy
  rw [ht]
  exact ⟨l, hlc⟩

theorem SessionCell.tidy_mco (ht : c.session.sessionType = .mco) (hlc : c.mco ≠ .start) :
    c.Tidy := by
  unfold SessionCell.Tidy
  rw [ht]
  exact hlc

theorem SessionCell.tidy_hashLock (ht : c.session.sessionType = .waitForHashLock)
    (hlc : c.session.lc = .start) (hw : c.wait.lc ≠ .start) : c.Tidy := by
  unfold SessionCell.Tidy
  rw [ht]
  exact ⟨hlc, hw⟩

theorem calm_noOp : Calm popNoOp := Or.inl rfl

theorem calm_returnValue : Calm popReturnValue := Or.inr (Or.inl rfl)

theorem calm_joinLocal : Calm popJoinLocalNewList := Or.inr (Or.inr (Or.inl rfl))

theorem calm_joinGlobal : Calm popJoinGlobalNewList := Or.inr (Or.inr (Or.inr rfl))

end

section

variable {s : Session} {p : PtRun} {action : Action} {os fetch : Int} {isEnd : Bool}
  {wait h h' : HashWait} {mco lc lc' : McoLabel} {params : HashLockParams} {T : Prop}

theorem Stepped.single {l : SingleShotLabel} (ht : s.sessionType = .socketCb)
    (hlc : s.lc = .single l) (hop : Calm s.postOp) : Stepped T ⟨s, wait, mco⟩ :=
  .stay (fun _ => SessionCell.tidy_single ht hlc) hop

theorem Stepped.multi {l : MultiShotLabel} (ht : s.sessionType = .multiSocketCb)
    (hlc : s.lc = .multi l) (hop : Calm s.postOp) : Stepped T ⟨s, wait, mco⟩ :=
  .stay (fun _ => SessionCell.tidy_multi ht hlc) hop

theorem SingleShot.stepped_installFd (ht : s.sessionType = .socketCb) :
    Stepped T ⟨(SingleShot.installFd { session := s } os).session, wait, mco⟩ := by
  unfold SingleShot.installFd
  split
  · split <;> exact .single ht rfl calm_noOp
  · exact .single ht rfl calm_noOp

theorem MultiShot.stepped_installFd (ht : s.sessionType = .multiSocketCb) :
    Stepped T ⟨(MultiShot.installFd { session := s } os).session, wait, mco⟩ := by
  unfold MultiShot.installFd
  split
  · split <;> exact .multi ht rfl calm_noOp
  · exact .multi ht rfl calm_noOp

theorem PtRun.sessionType_changeToNoTimingList (p : PtRun) :
    p.changeToNoTimingList.session.sessionType = p.session.sessionType := by
  unfold PtRun.changeToNoTimingList
  split <;> rfl

theorem PtRun.postOp_changeToNoTimingList (p : PtRun) :
    p.changeToNoTimingList.session.postOp = p.session.postOp := by
  unfold PtRun.changeToNoTimingList
  split <;> rfl

theorem SingleShot.stepped_removeFdThenActive (ht : p.session.sessionType = .socketCb)
    (hop : p.session.postOp = popNoOp) :
    Stepped T ⟨(SingleShot.removeFdThenActive p os).session, wait, mco⟩ := by
  unfold SingleShot.removeFdThenActive
  split
  · split
    · exact .single ht rfl (Or.inl hop)
    · refine .single ?_ rfl (Or.inl ?_)
      · exact (PtRun.sessionType_changeToNoTimingList _).trans ht
      · exact (PtRun.postOp_changeToNoTimingList _).trans hop
  · exact .single ht rfl (Or.inl hop)

theorem esqPtOfNoFd_stepped (h : esqPtOfNoFd s action = .ok p) :
    Stepped T ⟨p.session, wait, mco⟩ := by
  unfold esqPtOfNoFd at h
  split at h <;> cases h
  · exact .ends (Or.inl rfl)
  · exact .switch rfl (Or.inr (Or.inl rfl))
  · exact .switch rfl (Or.inl rfl)
  · exact .switch rfl (Or.inr (Or.inr rfl))
  · exact .switch rfl (Or.inr (Or.inr rfl))

theorem esqPtOfSingleShotSocket_stepped (ht : s.sessionType = .socketCb)
    (hop : s.postOp = popNoOp) (h : esqPtOfSingleShotSocket s action os = .ok p) :
    Stepped (∃ l, s.lc = .single l) ⟨p.session, wait, mco⟩ := by
  unfold esqPtOfSingleShotSocket at h
  rcases hlc : s.lc with _ | l | l
  · rw [hlc] at h
    cases h
    exact .single ht rfl calm_noOp
  case multi =>
    rw [hlc] at h
    cases h
    exact .stay (fun ⟨_, hl⟩ => nomatch hl) (Or.inl hop)
  rw [hlc] at h
  cases l with
  | initial =>
    simp only [SingleShot.initial] at h
    split at h
    · cases h
      exact .single ht rfl calm_joinLocal
    · cases h
      exact .single ht rfl calm_joinGlobal
    · split at h <;> cases h
      exact .single ht rfl calm_noOp
    · cases h
  | waitForCpu =>
    simp only [SingleShot.waitForCpu] at h
    split at h <;> cases h
    exact SingleShot.stepped_installFd ht
  | windedUp =>
    simp only [SingleShot.windedUp] at h
    split at h <;> cases h
    · exact .single ht rfl calm_noOp
    · exact SingleShot.stepped_removeFdThenActive ht rfl
    · exact SingleShot.stepped_removeFdThenActive ht rfl
  | waitForRemovedThenActive =>
    simp only [SingleShot.waitForRemovedThenActive] at h
    split at h <;> cases h <;> exact .single ht rfl calm_noOp
  | active =>
    simp only [SingleShot.active] at h
    split at h <;> cases h
    · exact .single ht hlc calm_noOp
    · exact .single ht rfl calm_noOp
    · exact .single ht rfl calm_returnValue
  | executeCb =>
    simp only [SingleShot.executeCb] at h
    split at h <;> cases h
    · exact .ends (Or.inl rfl)
    · exact .switch rfl (Or.inr (Or.inl rfl))
    · exact .single ht rfl calm_noOp
    · exact .single ht rfl calm_noOp
    · exact .single ht rfl calm_noOp
    · exact .single ht rfl calm_noOp
    · exact .switch rfl (Or.inr (Or.inr rfl))
    · exact .ends (Or.inr rfl)
  | waitForReinstall =>
    simp only [SingleShot.waitForReinstall] at h
    split at h <;> cases h
    · exact SingleShot.stepped_installFd ht
    · exact .single ht rfl calm_noOp
    · exact .single ht rfl calm_noOp
  | die => cases h

theorem esqPtOfMultiShotSocket_stepped (ht : s.sessionType = .multiSocketCb)
    (hop : s.postOp = popNoOp) (h : esqPtOfMultiShotSocket s action os = .ok p) :
    Stepped (∃ l, s.lc = .multi l) ⟨p.session, wait, mco⟩ := by
  unfold esqPtOfMultiShotSocket at h
  rcases hlc : s.lc with _ | l | l
  · rw [hlc] at h
    cases h
    exact .multi ht rfl calm_noOp
  case single =>
    rw [hlc] at h
    cases h
    exact .stay (fun ⟨_, hl⟩ => nomatch hl) (Or.inl hop)
  rw [hlc] at h
  cases l with
  | initial =>
    simp only [MultiShot.initial] at h
    split at h <;> cases h
    · exact .multi ht rfl calm_joinLocal
    · exact .multi ht rfl calm_joinGlobal
  | waitForCpu =>
    simp only [MultiShot.waitForCpu] at h
    split at h <;> cases h
    exact MultiShot.stepped_installFd ht
  | windedUp =>
    simp only [MultiShot.windedUp] at h
    split at h <;> cases h
    · exact .multi ht rfl calm_noOp
    · exact .multi ht rfl (Or.inl hop)
  | active =>
    simp only [MultiShot.active] at h
    split at h <;> cases h
    · exact .multi ht rfl calm_noOp
    · exact .multi ht rfl calm_noOp
    · exact .multi ht rfl calm_returnValue
  | executeCb =>
    simp only [MultiShot.executeCb] at h
    split at h
    · split at h
      · split at h <;> cases h
        · exact .multi ht rfl (Or.inl hop)
        · exact .multi ht rfl calm_noOp
      · cases h
        exact .ends (Or.inl rfl)
    · split at h
      · split at h <;> cases h <;> exact .multi ht rfl (Or.inl hop)
      · cases h
        exact .multi ht rfl calm_noOp
    · cases h
      exact .multi ht rfl calm_noOp
    · cases h
      exact .multi ht rfl calm_noOp
    · cases h
  | waitForRemovedAndWindUp =>
    simp only [MultiShot.waitForRemovedAndWindUp] at h
    split at h <;> cases h <;> exact .multi ht rfl calm_noOp
  | waitForRemoved =>
    simp only [MultiShot.waitForRemoved] at h
    split at h <;> cases h
    · exact .ends (Or.inl rfl)
    · exact .multi ht rfl calm_noOp
  | waitForWindUp =>
    simp only [MultiShot.waitForWindUp] at h
    split at h <;> cases h
    · exact .ends (Or.inl rfl)
    · exact .multi ht rfl calm_noOp
  | die => cases h

theorem Stepped.hashLock (ht : s.sessionType = .waitForHashLock) (hlc : s.lc = .start)
    (hw : wait.lc ≠ .start) (hop : Calm s.postOp) : Stepped T ⟨s, wait, mco⟩ :=
  .stay (fun _ => SessionCell.tidy_hashLock ht hlc hw) hop

theorem HashLockPt.stepped_tryFetchHashLock (ht : s.sessionType = .waitForHashLock)
    (hlc : s.lc = .start) :
    Stepped T ⟨(HashLockPt.tryFetchHashLock { session := s } fetch).1.session,
      { h with lc := (HashLockPt.tryFetchHashLock { session := s } fetch).2 }, mco⟩ := by
  unfold HashLockPt.tryFetchHashLock
  split
  · split <;> exact .hashLock ht hlc HashLockLabel.noConfusion calm_noOp
  · split <;> exact .hashLock ht hlc HashLockLabel.noConfusion calm_noOp

theorem esqPtOfHashLock_stepped (ht : s.sessionType = .waitForHashLock) (hlc : s.lc = .start)
    (hp : esqPtOfHashLock s h action params fetch = .ok (p, h')) :
    Stepped T ⟨p.session, h', mco⟩ := by
  unfold esqPtOfHashLock at hp
  dsimp only at hp
  split at hp
  · cases hp
    exact .hashLock ht hlc HashLockLabel.noConfusion calm_noOp
  · obtain ⟨q, hq, heq⟩ := map_eq_ok.mp hp
    cases heq
    simp only [HashLockPt.initial] at hq
    split at hq
    · cases hq
      exact .hashLock ht hlc HashLockLabel.noConfusion calm_joinLocal
    · cases hq
      exact .hashLock ht hlc HashLockLabel.noConfusion calm_joinGlobal
    · split at hq <;> cases hq
      exact .hashLock ht hlc HashLockLabel.noConfusion calm_noOp
    · cases hq
  · obtain ⟨q, hq, heq⟩ := map_eq_ok.mp hp
    cases heq
    simp only [HashLockPt.waitForCpu] at hq
    split at hq <;> cases hq
    exact HashLockPt.stepped_tryFetchHashLock ht hlc
  · obtain ⟨q, hq, heq⟩ := map_eq_ok.mp hp
    cases heq
    simp only [HashLockPt.windedUp] at hq
    split at hq <;> cases hq <;> exact .hashLock ht hlc HashLockLabel.noConfusion calm_noOp
  · obtain ⟨q, hq, heq⟩ := map_eq_ok.mp hp
    cases heq
    simp only [HashLockPt.active] at hq
    split at hq <;> cases hq
    · exact .hashLock ht hlc HashLockLabel.noConfusion calm_noOp
    · exact .hashLock ht hlc HashLockLabel.noConfusion calm_noOp
    · exact .hashLock ht hlc HashLockLabel.noConfusion calm_returnValue
  · obtain ⟨q, hq, heq⟩ := map_eq_ok.mp hp
    cases heq
    simp only [HashLockPt.executeCb] at hq
    split at hq <;> cases hq
    · exact .ends (Or.inl rfl)
    · exact .switch rfl (Or.inr (Or.inl rfl))
    · exact .hashLock ht hlc HashLockLabel.noConfusion calm_noOp
    · exact .switch rfl (Or.inl rfl)
    · exact .hashLock ht hlc HashLockLabel.noConfusion calm_noOp
    · exact .hashLock ht hlc HashLockLabel.noConfusion calm_noOp
    · exact .switch rfl (Or.inr (Or.inr rfl))
    · exact .ends (Or.inr rfl)
  · cases hp

theorem Stepped.coroutine (ht : s.sessionType = .mco) (hlc : mco ≠ .start) (hop : Calm s.postOp) :
    Stepped T ⟨s, wait, mco⟩ :=
  .stay (fun _ => SessionCell.tidy_mco ht hlc) hop

theorem esqPtOfMco_stepped (ht : s.sessionType = .mco) (hop : s.postOp = popNoOp)
    (hp : esqPtOfMco s lc action os isEnd = .ok (p, lc')) : Stepped T ⟨p.session, wait, lc'⟩ := by
  unfold esqPtOfMco at hp
  dsimp only at hp
  split at hp
  · cases hp
    exact .coroutine ht McoLabel.noConfusion calm_returnValue
  · simp only [McoPt.active] at hp
    split at hp <;> cases hp
    · exact .coroutine ht McoLabel.noConfusion calm_noOp
    · exact .coroutine ht McoLabel.noConfusion calm_noOp
    · exact .coroutine ht McoLabel.noConfusion calm_returnValue
  · simp only [McoPt.windedUp] at hp
    split at hp <;> cases hp <;> exact .coroutine ht McoLabel.noConfusion calm_noOp
  · simp only [McoPt.executeCb] at hp
    split at hp
    · split at hp
      · cases hp
        exact .ends (Or.inl rfl)
      · split at hp <;> cases hp
        exact .coroutine ht McoLabel.noConfusion (Or.inl hop)
    · split at hp
      · split at hp <;> cases hp <;> exact .coroutine ht McoLabel.noConfusion calm_returnValue
      · cases hp
        exact .coroutine ht McoLabel.noConfusion calm_returnValue
    · cases hp
      exact .coroutine ht McoLabel.noConfusion calm_noOp
    · cases hp
      exact .coroutine ht McoLabel.noConfusion calm_noOp
    · cases hp
  · simp only [McoPt.executeCbInstalledSocketFd] at hp
    split at hp
    · split at hp
      · cases hp
      · split at hp <;> cases hp <;> exact .coroutine ht McoLabel.noConfusion calm_noOp
    · cases hp
      refine .coroutine ?_ McoLabel.noConfusion calm_noOp
      show (McoPt.removeSocketFd { session := s } os).session.sessionType = _
      rw [McoPt.kin_removeSocketFd]
      exact ht
    all_goals
      cases hp <;> exact .coroutine ht McoLabel.noConfusion calm_noOp

end

/-! ## session の一歩 -/

section

variable {c c' : SessionCell} {a : ChassisAction} {es : List Effect}

inductive SessionCell.Stepping (c : SessionCell) (a : ChassisAction) :
    SessionCell → List Effect → Prop where
  | hashLock {p : PtRun} {wait : HashWait} (ht : c.session.sessionType = .waitForHashLock)
      (hlc : c.session.lc = .start)
      (hp : esqPtOfHashLock c.session c.wait a.action a.params a.fetch = .ok (p, wait)) :
      c.Stepping a { c with session := p.session, wait } p.effects
  | stuck (ht : c.session.sessionType = .waitForHashLock) (hlc : c.session.lc ≠ .start) :
      c.Stepping a c []
  | mco {p : PtRun} {mco : McoLabel} (ht : c.session.sessionType = .mco)
      (hp : esqPtOfMco c.session c.mco a.action a.os a.isEnd = .ok (p, mco)) :
      c.Stepping a { c with session := p.session, mco } p.effects
  | single {p : PtRun} (ht : c.session.sessionType = .socketCb)
      (hp : esqPtOfSingleShotSocket c.session a.action a.os = .ok p) :
      c.Stepping a { c with session := p.session } p.effects
  | multi {p : PtRun} (ht : c.session.sessionType = .multiSocketCb)
      (hp : esqPtOfMultiShotSocket c.session a.action a.os = .ok p) :
      c.Stepping a { c with session := p.session } p.effects
  | noFd {p : PtRun} (ht : c.session.sessionType = .new ∨ c.session.sessionType = .noFd)
      (hp : esqPtOfNoFd c.session a.action = .ok p) :
      c.Stepping a { c with session := p.session } p.effects

/-- **どの一歩も、型が選ぶ protothread の一歩である。** -/
theorem SessionCell.step_cases (h : c.step a = .ok (c', es)) : c.Stepping a c' es := by
  unfold SessionCell.step at h
  split at h
  next ht =>
    split at h
    next hlc =>
      obtain ⟨q, hq, h⟩ := bind_eq_ok.mp h
      cases h
      exact .hashLock ht hlc hq
    next hlc =>
      cases h
      exact .stuck ht hlc
  next ht =>
    obtain ⟨q, hq, h⟩ := bind_eq_ok.mp h
    cases h
    exact .mco ht hq
  next hwait hmco =>
    obtain ⟨p, hp, h⟩ := bind_eq_ok.mp h
    cases h
    unfold Session.step at hp
    split at hp
    next ht => exact .noFd (Or.inl ht) hp
    next ht => exact .noFd (Or.inr ht) hp
    next ht => exact .single ht hp
    next ht => exact .multi ht hp
    next ht => exact absurd ht hmco
    next ht => exact absurd ht hwait

theorem SessionCell.step_kin (h : c.step a = .ok (c', es)) (hk : a.action.KeepsKin) :
    c'.session.kin = c.session.kin := by
  cases SessionCell.step_cases h with
  | hashLock _ _ hp => exact esqPtOfHashLock_kin hp hk
  | stuck => rfl
  | mco _ hp => exact esqPtOfMco_kin hp
  | single _ hp => exact esqPtOfSingleShotSocket_kin hp hk
  | multi _ hp => exact esqPtOfMultiShotSocket_kin hp
  | noFd _ hp => exact esqPtOfNoFd_kin hp

theorem SessionCell.step_stepped (hop : c.session.postOp = popNoOp)
    (h : c.step a = .ok (c', es)) : Stepped c.Tidy c' := by
  unfold SessionCell.Tidy
  cases SessionCell.step_cases h with
  | hashLock ht hlc hp =>
    rw [ht]
    exact esqPtOfHashLock_stepped ht hlc hp
  | stuck ht hlc =>
    rw [ht]
    exact .stay (fun ht => absurd ht.1 hlc) (Or.inl hop)
  | mco ht hp =>
    rw [ht]
    exact esqPtOfMco_stepped ht hop hp
  | single ht hp =>
    rw [ht]
    exact esqPtOfSingleShotSocket_stepped ht hop hp
  | multi ht hp =>
    rw [ht]
    exact esqPtOfMultiShotSocket_stepped ht hop hp
  | noFd ht hp => exact esqPtOfNoFd_stepped hp

theorem SessionCell.restart_step (ht : c.session.sessionType.IsTarget)
    (h : c.restart.ready.step a = .ok (c', es)) :
    c'.Tidy ∧ c'.session.postOp = popNoOp ∧ c'.session.sessionType = c.session.sessionType := by
  unfold SessionCell.step SessionCell.restart SessionCell.ready Session.ready at h
  rcases ht with ht | ht | ht
  · rw [ht] at h
    dsimp only [Session.step] at h
    cases h
    exact ⟨SessionCell.tidy_single rfl rfl, rfl, ht.symm⟩
  · rw [ht] at h
    dsimp only [Session.step] at h
    cases h
    exact ⟨SessionCell.tidy_multi rfl rfl, rfl, ht.symm⟩
  · rw [ht] at h
    dsimp only at h
    rw [if_pos rfl] at h
    cases h
    exact ⟨SessionCell.tidy_hashLock rfl rfl HashLockLabel.noConfusion, rfl, ht.symm⟩

theorem wantsSwitch_of_calm {op : Nat} (h : Calm op) : wantsSwitch op = false := by
  rcases h with rfl | rfl | rfl | rfl <;> decide

theorem wantsSwitch_of_ends {op : Nat} (h : Ends op) : wantsSwitch op = false := by
  rcases h with rfl | rfl <;> decide

theorem kin_ready (s : Session) : s.ready.kin = s.kin := rfl

theorem kin_restart (c : SessionCell) : c.restart.ready.session.kin = c.session.kin := rfl

theorem SessionCell.act_cases (h : c.act a = .ok (c', es)) :
    (c.ready.step a = .ok (c', es) ∧ wantsSwitch c'.session.postOp = false) ∨
      ∃ d ds ds', c.ready.step a = .ok (d, ds) ∧ wantsSwitch d.session.postOp = true
        ∧ d.restart.ready.step a = .ok (c', ds') ∧ es = ds ++ ds' := by
  unfold SessionCell.act at h
  obtain ⟨⟨d, ds⟩, hd, h⟩ := bind_eq_ok.mp h
  dsimp only at h
  split at h
  next hsw =>
    obtain ⟨⟨d', ds'⟩, hd', h⟩ := bind_eq_ok.mp h
    cases h
    exact Or.inr ⟨d, ds, ds', hd, hsw, hd', rfl⟩
  next hsw =>
    cases h
    exact Or.inl ⟨hd, Bool.eq_false_iff.mpr hsw⟩

/-- **action は、親子を扱う二つの他は、親子の欄を変えない。** -/
theorem SessionCell.act_kin (h : c.act a = .ok (c', es)) (hk : a.action.KeepsKin) :
    c'.session.kin = c.session.kin := by
  rcases SessionCell.act_cases h with ⟨hs, -⟩ | ⟨d, ds, ds', hd, -, hs, -⟩
  · exact (SessionCell.step_kin (c := c.ready) hs hk).trans (kin_ready c.session)
  · calc c'.session.kin = d.restart.ready.session.kin := SessionCell.step_kin hs hk
      _ = d.session.kin := kin_restart d
      _ = c.ready.session.kin := SessionCell.step_kin hd hk
      _ = c.session.kin := kin_ready c.session

/-- **action を受けた session は、終わるか、型と label の合ったまま続く。** -/
theorem SessionCell.act_settled (h : c.act a = .ok (c', es)) :
    ((c.Tidy → c'.Tidy) ∧ Calm c'.session.postOp) ∨ Ends c'.session.postOp := by
  rcases SessionCell.act_cases h with ⟨hs, hsw⟩ | ⟨d, ds, ds', hd, hsw, hs, -⟩
  · rcases SessionCell.step_stepped (c := c.ready) rfl hs with ⟨ht', hop⟩ | hop | ⟨hop, -⟩
    · exact Or.inl ⟨ht', hop⟩
    · exact Or.inr hop
    · rw [hop] at hsw
      exact absurd hsw (by decide)
  · rcases SessionCell.step_stepped (c := c.ready) rfl hd with ⟨-, hop⟩ | hop | ⟨-, htype⟩
    · rw [wantsSwitch_of_calm hop] at hsw
      cases hsw
    · rw [wantsSwitch_of_ends hop] at hsw
      cases hsw
    · obtain ⟨ht', hop, -⟩ := SessionCell.restart_step htype hs
      exact Or.inl ⟨fun _ => ht', Or.inl hop⟩

theorem SessionCell.step_notifyEvent {bits : Nat} (ht : c.Tidy) (hop : c.session.postOp = popNoOp)
    (h : c.step { action := .notifyEvent bits } = .ok (c', es)) :
    c'.Tidy ∧ c'.session.postOp = popNoOp ∧ c'.session.sessionType = c.session.sessionType := by
  have key : c'.session.postOp = popNoOp ∧ c'.session.sessionType = c.session.sessionType := by
    unfold SessionCell.Tidy at ht
    unfold SessionCell.step at h
    cases htype : c.session.sessionType with
    | waitForHashLock =>
      rw [htype] at h ht
      dsimp only at h ht
      rw [if_pos ht.1] at h
      unfold esqPtOfHashLock at h
      cases hw : c.wait.lc with
      | start => exact absurd hw ht.2
      | _ => rw [hw] at h; cases h <;> exact ⟨rfl, htype⟩
    | mco =>
      rw [htype] at h ht
      unfold esqPtOfMco at h
      cases hm : c.mco with
      | start => exact absurd hm ht
      | _ => rw [hm] at h; cases h; exact ⟨rfl, htype⟩
    | socketCb =>
      rw [htype] at h ht
      obtain ⟨l, hl⟩ := ht
      dsimp only [Session.step] at h
      rw [htype] at h
      dsimp only at h
      unfold esqPtOfSingleShotSocket at h
      rw [hl] at h
      cases l <;> cases h <;> exact ⟨rfl, htype⟩
    | multiSocketCb =>
      rw [htype] at h ht
      obtain ⟨l, hl⟩ := ht
      dsimp only [Session.step] at h
      rw [htype] at h
      dsimp only at h
      unfold esqPtOfMultiShotSocket at h
      rw [hl] at h
      cases l <;> cases h <;> exact ⟨rfl, htype⟩
    | new =>
      rw [htype] at h
      dsimp only [Session.step] at h
      rw [htype] at h
      cases h
    | noFd =>
      rw [htype] at h
      dsimp only [Session.step] at h
      rw [htype] at h
      cases h
  rcases SessionCell.step_stepped hop h with ⟨ht', -⟩ | hop' | ⟨hop', -⟩
  · exact ⟨ht' ht, key⟩
  · rw [key.1] at hop'
    rcases hop' with hop' | hop' <;> cases hop'
  · rw [key.1] at hop'
    cases hop'

/-- 親を受け付けるのは `__initial` だけである。 -/
def SessionCell.Initial (c : SessionCell) : Prop :=
  (c.session.sessionType = .socketCb ∧ c.session.lc = .single .initial) ∨
    (c.session.sessionType = .waitForHashLock ∧ c.wait.lc = .initial)

/-- 子を受け付けるのは callback の中だけである。 -/
def SessionCell.InCallback (c : SessionCell) : Prop :=
  (c.session.sessionType = .socketCb ∧ c.session.lc = .single .executeCb) ∨
    (c.session.sessionType = .waitForHashLock ∧ c.wait.lc = .executeCb)

theorem SessionCell.Initial.not_inCallback (hi : c.Initial) : ¬ c.InCallback := by
  rintro (⟨ht, hlc⟩ | ⟨ht, hlc⟩) <;> rcases hi with ⟨ht', hlc'⟩ | ⟨ht', hlc'⟩
  · rw [hlc] at hlc'
    cases hlc'
  · rw [ht] at ht'
    cases ht'
  · rw [ht] at ht'
    cases ht'
  · rw [hlc] at hlc'
    cases hlc'

theorem SessionCell.act_setParent {parent cb : Nat} (ht : c.Tidy)
    (h : c.act { action := .setParent parent cb } = .ok (c', es)) :
    c.Initial ∧ c.session.haveParentSession = false ∧ es = []
      ∧ SameControl c c' ∧ c'.session.postOp = popNoOp ∧ c'.session.kin = { c.session.kin with
        haveParentSession := true, parentSession := some parent, sessionDoneCb := cb } := by
  have key : ∀ d ds, c.ready.step { action := .setParent parent cb } = .ok (d, ds) →
      c.Initial ∧ c.session.haveParentSession = false ∧ ds = [] ∧ SameControl c d
        ∧ d.session.postOp = popNoOp ∧ d.session.kin = { c.session.kin with
          haveParentSession := true, parentSession := some parent, sessionDoneCb := cb } := by
    intro d ds h
    unfold SessionCell.Tidy at ht
    unfold SessionCell.step SessionCell.ready Session.ready at h
    cases htype : c.session.sessionType with
    | waitForHashLock =>
      rw [htype] at h ht
      dsimp only at h ht
      rw [if_pos ht.1] at h
      unfold esqPtOfHashLock at h
      cases hw : c.wait.lc with
      | start => exact absurd hw ht.2
      | initial =>
        rw [hw] at h
        dsimp only [HashLockPt.initial] at h
        cases hh : c.session.haveParentSession with
        | true =>
          rw [hh] at h
          cases h
        | false =>
          rw [hh] at h
          cases h
          refine ⟨Or.inr ⟨htype, hw⟩, rfl, rfl, ⟨?_, rfl, htype.symm, rfl⟩, rfl, rfl⟩
          show { c.wait with lc := .initial } = c.wait
          rw [← hw]
      | _ => rw [hw] at h; cases h
    | mco =>
      rw [htype] at h ht
      unfold esqPtOfMco at h
      cases hm : c.mco with
      | start => exact absurd hm ht
      | _ => rw [hm] at h; cases h
    | socketCb =>
      rw [htype] at h ht
      obtain ⟨l, hl⟩ := ht
      dsimp only [Session.step] at h
      unfold esqPtOfSingleShotSocket at h
      rw [hl] at h
      cases l with
      | initial =>
        dsimp only [SingleShot.initial] at h
        cases hh : c.session.haveParentSession with
        | true =>
          rw [hh] at h
          cases h
        | false =>
          rw [hh] at h
          cases h
          exact ⟨Or.inl ⟨htype, hl⟩, rfl, rfl, ⟨rfl, rfl, htype.symm, hl.symm⟩, rfl, rfl⟩
      | _ => cases h
    | multiSocketCb =>
      rw [htype] at h ht
      obtain ⟨l, hl⟩ := ht
      dsimp only [Session.step] at h
      unfold esqPtOfMultiShotSocket at h
      rw [hl] at h
      cases l <;> cases h
    | new =>
      rw [htype] at h
      cases h
    | noFd =>
      rw [htype] at h
      cases h
  rcases SessionCell.act_cases h with ⟨hs, -⟩ | ⟨d, ds, ds', hd, hsw, -⟩
  · exact key c' es hs
  · rw [(key d ds hd).2.2.2.2.1] at hsw
    exact absurd hsw (by decide)

theorem SessionCell.act_addChild {child : Nat} (ht : c.Tidy)
    (h : c.act { action := .addChild child } = .ok (c', es)) :
    c.InCallback ∧ es = [] ∧ SameControl c c' ∧ c'.session.postOp = popNoOp
      ∧ c'.session.kin = { c.session.kin with
        childSessionList := child :: c.session.childSessionList } := by
  have key : ∀ d ds, c.ready.step { action := .addChild child } = .ok (d, ds) →
      c.InCallback ∧ ds = [] ∧ SameControl c d ∧ d.session.postOp = popNoOp
        ∧ d.session.kin = { c.session.kin with
        childSessionList := child :: c.session.childSessionList } := by
    intro d ds h
    unfold SessionCell.Tidy at ht
    unfold SessionCell.step SessionCell.ready Session.ready at h
    cases htype : c.session.sessionType with
    | waitForHashLock =>
      rw [htype] at h ht
      dsimp only at h ht
      rw [if_pos ht.1] at h
      unfold esqPtOfHashLock at h
      cases hw : c.wait.lc with
      | start => exact absurd hw ht.2
      | executeCb =>
        rw [hw] at h
        cases h
        refine ⟨Or.inr ⟨htype, hw⟩, rfl, ⟨?_, rfl, htype.symm, rfl⟩, rfl, rfl⟩
        show { c.wait with lc := .executeCb } = c.wait
        rw [← hw]
      | _ => rw [hw] at h; cases h
    | mco =>
      rw [htype] at h ht
      unfold esqPtOfMco at h
      cases hm : c.mco with
      | start => exact absurd hm ht
      | _ => rw [hm] at h; cases h
    | socketCb =>
      rw [htype] at h ht
      obtain ⟨l, hl⟩ := ht
      dsimp only [Session.step] at h
      unfold esqPtOfSingleShotSocket at h
      rw [hl] at h
      cases l with
      | executeCb =>
        cases h
        exact ⟨Or.inl ⟨htype, hl⟩, rfl, ⟨rfl, rfl, htype.symm, hl.symm⟩, rfl, rfl⟩
      | _ => cases h
    | multiSocketCb =>
      rw [htype] at h ht
      obtain ⟨l, hl⟩ := ht
      dsimp only [Session.step] at h
      unfold esqPtOfMultiShotSocket at h
      rw [hl] at h
      cases l <;> cases h
    | new =>
      rw [htype] at h
      cases h
    | noFd =>
      rw [htype] at h
      cases h
  rcases SessionCell.act_cases h with ⟨hs, -⟩ | ⟨d, ds, ds', hd, hsw, -⟩
  · exact key c' es hs
  · rw [(key d ds hd).2.2.2.1] at hsw
    exact absurd hsw (by decide)

end

end Esq
