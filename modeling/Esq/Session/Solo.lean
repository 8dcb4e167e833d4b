import Esq.Session.Membership

/-!
# 親子の無い session

親も子も持たない session に渡した action の結果は、その session の欄だけで決まる。
worker の list への操作を忘れて欄だけを追うのが `Session.takeAction` で、
`esqSessionTakeAction_session` が worker の上の `esqSessionTakeAction` と結ぶ。

接続を受け持つ session は親も子も持たないので、その callback はこの上で書ける。
-/

namespace Esq

/-! ## 一つの session の上の action -/

/-- 後始末のうち、session の欄に残るもの。 -/
def Session.settle (s : Session) : Int × Session :=
  if hasBit s.postOp popJoinGlobalNewList then (esqOk, s)
  else if hasBit s.postOp popJoinLocalNewList then (esqOk, s)
  else if hasBit s.postOp popFreeSession then (esqOk, { s with magic := false })
  else if hasBit s.postOp popReturnValue then (s.r, s)
  else (esqOk, s)

/-- `__esq_session_take_action` が一つの session に対して行うこと。 -/
def Session.takeAction (s : Session) (action : Action) (os : Int) :
    Except Fault (Int × Session) :=
  if s.magic then do
    let p ← s.ready.step action os
    if wantsSwitch p.session.postOp then do
      let p' ← ({ p.session with lc := .start } : Session).ready.step action os
      .ok p'.session.settle
    else .ok p.session.settle
  else .ok (esqErrorParam, s)

section

variable {s : Session} {p p' : PtRun} {action : Action} {os : Int}

theorem takeAction_stay (hm : s.magic = true) (hp : s.ready.step action os = .ok p)
    (hsw : wantsSwitch p.session.postOp = false) :
    s.takeAction action os = .ok p.session.settle := by
  unfold Session.takeAction
  rw [if_pos hm, hp, ok_bind, hsw, if_neg Bool.false_ne_true]

theorem takeAction_switch (hm : s.magic = true) (hp : s.ready.step action os = .ok p)
    (hsw : wantsSwitch p.session.postOp = true)
    (hp' : ({ p.session with lc := .start } : Session).ready.step action os = .ok p') :
    s.takeAction action os = .ok p'.session.settle := by
  unfold Session.takeAction
  rw [if_pos hm, hp, ok_bind, if_pos hsw, hp', ok_bind]

theorem Session.settle_noOp (h : s.postOp = popNoOp) : s.settle = (esqOk, s) := by
  unfold Session.settle
  rw [h]
  rfl

theorem Session.settle_joinGlobalNewList (h : s.postOp = popJoinGlobalNewList) :
    s.settle = (esqOk, s) := by
  unfold Session.settle
  rw [h]
  rfl

theorem Session.settle_returnValue (h : s.postOp = popReturnValue) : s.settle = (s.r, s) := by
  unfold Session.settle
  rw [h]
  rfl

theorem Session.settle_freeSession (h : s.postOp = popFreeSession) :
    s.settle = (esqOk, { s with magic := false }) := by
  unfold Session.settle
  rw [h]
  rfl

end

structure Session.Solo (s : Session) : Prop where
  rootless : s.haveParentSession = false
  children : s.childSessionList = []
  finished : s.finishedChildSessionList = []

section

variable {w : Worker} {x : Nat} {s t : Session} {action : Action} {os : Int}

theorem Session.Solo.sameKin (h : s.Solo) (hk : SameKin s t) : t.Solo where
  rootless := by rw [hk.have_parent, h.rootless]
  children := by rw [hk.children, h.children]
  finished := by rw [hk.finished, h.finished]

theorem Session.Solo.settle (h : s.Solo) : s.settle.2.Solo := by
  unfold Session.settle
  split
  · exact h
  split
  · exact h
  split
  · exact ⟨h.1, h.2, h.3⟩
  split <;> exact h

theorem Session.Solo.takeAction {r : Int} (h : s.Solo) (ht : s.takeAction action os = .ok (r, t))
    (hset : ∀ q cb, action ≠ .setParent q cb) (hadd : ∀ c, action ≠ .addChild c) : t.Solo := by
  unfold Session.takeAction at ht
  split at ht
  · obtain ⟨p, hp, ht⟩ := bind_eq_ok.mp ht
    have hsolo : p.session.Solo := Session.Solo.sameKin (s := s.ready) ⟨h.1, h.2, h.3⟩
      (Session.step_sameKin hp hset hadd)
    split at ht
    · obtain ⟨p', hp', ht⟩ := bind_eq_ok.mp ht
      have hsolo' : p'.session.Solo :=
        Session.Solo.sameKin (s := ({ p.session with lc := .start } : Session).ready)
          ⟨hsolo.1, hsolo.2, hsolo.3⟩ (Session.step_sameKin hp' hset hadd)
      have hsettle := hsolo'.settle
      rw [Except.ok.inj ht] at hsettle
      exact hsettle
    · have hsettle := hsolo.settle
      rw [Except.ok.inj ht] at hsettle
      exact hsettle
  · cases ht
    exact h

theorem esqUnhookChildSession_solo (hs : (w.session x).Solo) :
    (esqUnhookChildSession w x).session x = w.session x := by
  rw [esqUnhookChildSession_session]
  simp only [hs.children, hs.finished, List.not_mem_nil, if_false, if_true]
  rw [← hs.children]
  nth_rewrite 2 [hs.children]
  rw [← hs.finished]

theorem freeSession_of_solo (hs : (w.session x).Solo) (os : Int) :
    ∃ w', w.freeSession x os = .ok w' ∧ SameLists w w'
      ∧ w'.session = Function.update w.session x { w.session x with magic := false } := by
  have hx := esqUnhookChildSession_solo hs
  have hy : ∀ y, (esqUnhookChildSession w x).session y = w.session y := by
    intro y
    by_cases hyx : y = x
    · subst hyx
      exact hx
    · rw [esqUnhookChildSession_session]
      simp [hs.children, hs.finished, hyx]
  refine ⟨(esqUnhookChildSession w x).setSession x { w.session x with magic := false }, ?_, ?_, ?_⟩
  · unfold Worker.freeSession
    dsimp only
    rw [hx, hs.rootless, if_neg Bool.false_ne_true]
  · obtain ⟨h1, h2, h3, h4⟩ := esqUnhookChildSession_sameLists w x
    exact ⟨h1, h2, h3, h4⟩
  · unfold Worker.setSession
    dsimp only
    rw [funext hy]

theorem postActions_session (hs : (w.session x).Solo) :
    (w.postActions x os).map (fun q => (q.1, q.2.session x)) = .ok (w.session x).settle := by
  unfold Worker.postActions Session.settle
  dsimp only
  by_cases h1 : hasBit (w.session x).postOp popJoinGlobalNewList = true
  · rw [if_pos h1, if_pos h1]
    exact congrArg (fun f => Except.ok (esqOk, f x)) (joinNewList_session w _ x)
  rw [if_neg h1, if_neg h1]
  by_cases h2 : hasBit (w.session x).postOp popJoinLocalNewList = true
  · rw [if_pos h2, if_pos h2]
    exact congrArg (fun f => Except.ok (esqOk, f x)) (joinNewList_session w _ x)
  rw [if_neg h2, if_neg h2]
  by_cases h3 : hasBit (w.session x).postOp popFreeSession = true
  · rw [if_pos h3, if_pos h3]
    obtain ⟨w', hfree, -, hsess⟩ := freeSession_of_solo hs os
    rw [hfree, ok_bind]
    show Except.ok (esqOk, w'.session x) = _
    rw [hsess, Function.update_self]
  rw [if_neg h3, if_neg h3]
  split <;> rfl

theorem dispatch_eq_ok {w' : Worker} (h : w.dispatch x action os = .ok w') :
    ∃ p, (w.session x).ready.step action os = .ok p ∧ w'.session x = p.session := by
  unfold Worker.dispatch at h
  obtain ⟨p, hp, h⟩ := bind_eq_ok.mp h
  cases h
  refine ⟨p, hp, ?_⟩
  rw [execEffects_session, Worker.setSession_self]

theorem dispatch_eq_error {e : Fault} (h : w.dispatch x action os = .error e) :
    (w.session x).ready.step action os = .error e := by
  unfold Worker.dispatch at h
  cases hp : (w.session x).ready.step action os with
  | error e' =>
    rw [hp, error_bind] at h
    exact congrArg Except.error (Except.error.inj h)
  | ok p =>
    rw [hp] at h
    cases h

/-- **worker の上の action は、親子の無い session の欄の上では `Session.takeAction` である。** -/
theorem esqSessionTakeAction_session (hs : (w.session x).Solo)
    (hset : ∀ q cb, action ≠ .setParent q cb) (hadd : ∀ c, action ≠ .addChild c) :
    (esqSessionTakeAction w x action os).map (fun q => (q.1, q.2.session x))
      = (w.session x).takeAction action os := by
  unfold esqSessionTakeAction Session.takeAction
  by_cases hm : (w.session x).magic = true
  · rw [if_pos hm, if_pos hm]
    cases hd : w.dispatch x action os with
    | error e => rw [dispatch_eq_error hd, error_bind, error_bind, Except.map]
    | ok w' =>
      obtain ⟨p, hp, hx⟩ := dispatch_eq_ok hd
      have hsolo : p.session.Solo :=
        Session.Solo.sameKin (s := (w.session x).ready) ⟨hs.1, hs.2, hs.3⟩
          (Session.step_sameKin hp hset hadd)
      rw [hp, ok_bind, ok_bind, hx]
      by_cases hsw : wantsSwitch p.session.postOp = true
      · rw [if_pos hsw, if_pos hsw]
        have hself := Worker.setSession_self w' x { p.session with lc := .start }
        cases hd2 : (w'.setSession x { p.session with lc := .start }).dispatch x action os with
        | error e =>
          have hp2 := dispatch_eq_error hd2
          rw [hself] at hp2
          rw [hp2, error_bind, error_bind, Except.map]
        | ok w'' =>
          obtain ⟨p2, hp2, hx2⟩ := dispatch_eq_ok hd2
          rw [hself] at hp2
          have hsolo2 : p2.session.Solo :=
            Session.Solo.sameKin
              (s := ({ p.session with lc := .start } : Session).ready)
              ⟨hsolo.1, hsolo.2, hsolo.3⟩ (Session.step_sameKin hp2 hset hadd)
          rw [hp2, ok_bind, ok_bind, postActions_session (hx2 ▸ hsolo2), hx2]
      · rw [if_neg hsw, if_neg hsw, postActions_session (hx ▸ hsolo), hx]
  · rw [if_neg hm, if_neg hm]
    rfl

end

/-! ## 接続の callback -/

inductive ServiceCb where
  | beeSessionReceiveRequest
  | h2esqSessionFdAlpnCb
  | h2esqSessionFdSchCb
  | h2esqSessionFdCb
deriving DecidableEq, Repr

def ServiceCb.addr : ServiceCb → Nat
  | .beeSessionReceiveRequest => 1
  | .h2esqSessionFdAlpnCb => 2
  | .h2esqSessionFdSchCb => 3
  | .h2esqSessionFdCb => 4

/-- callback が戻ったときに接続がどうなっているか。 -/
inductive CbOutcome where
  /-- `esq_session_set_socket_fd` で次の event を待つ -/
  | rearmed
  /-- `fd` を閉じて、接続の領域を解放した -/
  | released (fd : Int)
  /-- どちらもしなかった -/
  | idle
deriving DecidableEq, Repr

def esqSessionSetSocketFd (s : Session) (params : FdParams) : Except Fault (Int × Session) :=
  if params.cb = 0 then .error .designError else s.takeAction (.addSockFdSingle params) 0

/-- 次の event を待つ。失敗したら `closeFd` を閉じて接続を解放する。 -/
def Session.rearm (s : Session) (cb : ServiceCb) (expEventBits : Nat) (timeouts closeFd : Int) :
    Except Fault (CbOutcome × Session) := do
  let (r, s') ← esqSessionSetSocketFd s {
    fd := s.fd
    cb := cb.addr
    expEventBits
    timeouts
    userParam := s.userParam }
  if r ≠ 0 then .ok (.released closeFd, s') else .ok (.rearmed, s')

theorem Session.Solo.rearm {s t : Session} {cb : ServiceCb} {bits : Nat} {timeouts f : Int}
    {out : CbOutcome} (h : s.Solo) (ht : s.rearm cb bits timeouts f = .ok (out, t)) : t.Solo := by
  unfold Session.rearm esqSessionSetSocketFd at ht
  obtain ⟨⟨r, s'⟩, hs', ht⟩ := bind_eq_ok.mp ht
  have hsolo : s'.Solo := by
    split at hs'
    · cases hs'
    · exact h.takeAction hs' (by simp) (by simp)
  dsimp only at ht
  split at ht <;> cases ht <;> exact hsolo

end Esq
