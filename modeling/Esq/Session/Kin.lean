import Esq.Session.Worker

/-!
# 親子の欄

`session.h` の `esq_session_t` の、親子に関わる欄。socket の状態機械は、`ACTION_SET_PARENT` と
`ACTION_ADD_CHILD` の他では、これを書かない。
-/

namespace Esq

def Session.kin (s : Session) : Session where
  magic := s.magic
  haveParentSession := s.haveParentSession
  parentSession := s.parentSession
  sessionDoneCb := s.sessionDoneCb
  childSessionList := s.childSessionList
  finishedChildSessionList := s.finishedChildSessionList

section

variable {s t : Session} (h : s.kin = t)
include h

theorem Session.magic_of_kin : s.magic = t.magic := by
  rw [← h]
  rfl

theorem Session.haveParentSession_of_kin : s.haveParentSession = t.haveParentSession := by
  rw [← h]
  rfl

theorem Session.parentSession_of_kin : s.parentSession = t.parentSession := by
  rw [← h]
  rfl

theorem Session.sessionDoneCb_of_kin : s.sessionDoneCb = t.sessionDoneCb := by
  rw [← h]
  rfl

theorem Session.childSessionList_of_kin : s.childSessionList = t.childSessionList := by
  rw [← h]
  rfl

theorem Session.finishedChildSessionList_of_kin :
    s.finishedChildSessionList = t.finishedChildSessionList := by
  rw [← h]
  rfl

end

def Action.KeepsKin (action : Action) : Prop :=
  (∀ q cb, action ≠ .setParent q cb) ∧ ∀ c, action ≠ .addChild c

/-! ## socket の状態機械 -/

section

variable {s : Session} {p : PtRun} {action : Action} {os : Int}

theorem PtRun.kin_changeToNoTimingList (p : PtRun) :
    p.changeToNoTimingList.session.kin = p.session.kin := by
  unfold PtRun.changeToNoTimingList
  split <;> rfl

theorem SingleShot.kin_installFd (s : Session) :
    (SingleShot.installFd { session := s } os).session.kin = s.kin := by
  unfold SingleShot.installFd
  split
  · split <;> rfl
  · rfl

theorem MultiShot.kin_installFd (s : Session) :
    (MultiShot.installFd { session := s } os).session.kin = s.kin := by
  unfold MultiShot.installFd
  split
  · split <;> rfl
  · rfl

theorem SingleShot.kin_removeFdThenActive (p : PtRun) :
    (SingleShot.removeFdThenActive p os).session.kin = p.session.kin := by
  unfold SingleShot.removeFdThenActive
  split
  · split
    · rfl
    · exact PtRun.kin_changeToNoTimingList _
  · rfl

theorem esqPtOfNoFd_kin (h : esqPtOfNoFd s action = .ok p) : p.session.kin = s.kin := by
  unfold esqPtOfNoFd at h
  split at h <;> cases h <;> rfl

theorem esqPtOfSingleShotSocket_kin (h : esqPtOfSingleShotSocket s action os = .ok p)
    (hk : action.KeepsKin) : p.session.kin = s.kin := by
  unfold esqPtOfSingleShotSocket at h
  split at h
  · cases h
    rfl
  · simp only [SingleShot.initial] at h
    split at h
    · cases h
      rfl
    · cases h
      rfl
    · exact absurd rfl (hk.1 _ _)
    · cases h
  · simp only [SingleShot.waitForCpu] at h
    split at h <;> cases h
    exact SingleShot.kin_installFd _
  · simp only [SingleShot.windedUp] at h
    split at h <;> cases h
    · rfl
    · exact SingleShot.kin_removeFdThenActive _
    · exact SingleShot.kin_removeFdThenActive _
  · simp only [SingleShot.waitForRemovedThenActive] at h
    split at h <;> cases h <;> rfl
  · simp only [SingleShot.active] at h
    split at h <;> cases h <;> rfl
  · simp only [SingleShot.executeCb] at h
    split at h
    case h_3 => exact absurd rfl (hk.2 _)
    all_goals
      cases h <;> rfl
  · simp only [SingleShot.waitForReinstall] at h
    split at h <;> cases h
    · exact SingleShot.kin_installFd _
    · rfl
    · rfl
  · cases h
  · cases h
    rfl

theorem esqPtOfMultiShotSocket_kin (h : esqPtOfMultiShotSocket s action os = .ok p) :
    p.session.kin = s.kin := by
  unfold esqPtOfMultiShotSocket at h
  split at h
  · cases h
    rfl
  · simp only [MultiShot.initial] at h
    split at h <;> cases h <;> rfl
  · simp only [MultiShot.waitForCpu] at h
    split at h <;> cases h
    exact MultiShot.kin_installFd _
  · simp only [MultiShot.windedUp] at h
    split at h <;> cases h <;> rfl
  · simp only [MultiShot.active] at h
    split at h <;> cases h <;> rfl
  · simp only [MultiShot.executeCb] at h
    split at h
    · split at h
      · split at h <;> cases h <;> rfl
      · cases h
        rfl
    · split at h
      · split at h <;> cases h <;> rfl
      · cases h
        rfl
    all_goals
      cases h <;> rfl
  · simp only [MultiShot.waitForRemovedAndWindUp] at h
    split at h <;> cases h <;> rfl
  · simp only [MultiShot.waitForRemoved] at h
    split at h <;> cases h <;> rfl
  · simp only [MultiShot.waitForWindUp] at h
    split at h <;> cases h <;> rfl
  · cases h
  · cases h
    rfl

/-- **親子を扱う二つの他の action は、親子の欄を変えない。** -/
theorem Session.step_kin (h : s.step action os = .ok p) (hk : action.KeepsKin) :
    p.session.kin = s.kin := by
  unfold Session.step at h
  split at h
  · exact esqPtOfNoFd_kin h
  · exact esqPtOfNoFd_kin h
  · exact esqPtOfSingleShotSocket_kin h hk
  · exact esqPtOfMultiShotSocket_kin h
  · cases h
    rfl
  · cases h
    rfl

end

end Esq
