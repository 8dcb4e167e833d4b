import Esq.Session.EventBits
import Esq.Session.Loop

/-!
# exit を受けてから終わるまで

callback の間で止まっている一つの session（`SessionCell.Parked`）が、exit、poll の取り消しの完了、
`ACTION_EXECUTE_CB` を順に受けて終わるまでを、session の欄と io_uring から見た様子（`Kern`）の
上で追う。五つの状態機械の枝はここだけで開く。

hash lock の session は、待っている間に exit を受けても timing list から動かない。
-/

namespace Esq

open Infra

/-! ## session の様子 -/

/-- `event_bits` に `ESQ_EVENT_BIT_EXIT` がある。 -/
def Session.exiting (s : Session) : Bool := s.eventBits.testBit 7

namespace SessionCell

/-- event か時間切れを待つ label にいる。 -/
def waiting (c : SessionCell) : Bool :=
  match c.session.sessionType with
  | .socketCb => c.session.lc = .single .windedUp
  | .multiSocketCb => c.session.lc = .multi .windedUp
  | .mco => c.mco = .windedUp
  | .waitForHashLock => c.wait.lc = .windedUp
  | _ => false

/-- poll の取り消しの完了を待つ label にいる。 -/
def removing (c : SessionCell) : Bool :=
  match c.session.sessionType with
  | .socketCb => c.session.lc = .single .waitForRemovedThenActive
  | .multiSocketCb => c.session.lc = .multi .waitForRemoved
  | _ => false

/-- これから poll を取り消すことになる。 -/
def polls (c : SessionCell) : Bool :=
  fdNeedInstall c.session.fd &&
    match c.session.sessionType with
    | .socketCb => c.session.lc = .single .windedUp
    | .multiSocketCb => c.session.lc = .multi .windedUp || c.session.lc = .multi .active
    | _ => false

/-- exit を受けた session が、終わるまでに動く回数。 -/
def rank (c : SessionCell) : Nat :=
  if c.session.magic then
    match c.session.sessionType with
    | .socketCb => if c.removing then 2 else 1
    | .multiSocketCb => if c.removing then 1 else 2
    | _ => 1
  else 0

/-- callback の間に list `l` で止まっている session。`k` は io_uring から見た様子である。 -/
structure Parked (c : SessionCell) (k : Kern) (l : WorkerList) : Prop where
  magic : c.session.magic = true
  callable : c.session.sessionType = .mco ∨ c.session.cb ≠ 0
  lone : c.session.Lone
  rests : c.Rests l
  removed : c.session.sessionType = .socketCb → c.removing = true →
    c.session.timingList = .ofNoTime
  armed : c.polls = true → k.poll ≠ .idle
  notices : k.notices = if c.removing then [.removed] else []

/-- exit を受けた後の様子。 -/
structure Told (c : SessionCell) : Prop where
  awake : c.waiting = false
  exiting : c.session.exiting = true ∨ c.session.sessionType = .multiSocketCb ∧ c.removing = true

end SessionCell

theorem exiting_orBits (bits : Nat) : (orBits bits esqEventBitExit).testBit 7 = true := by
  rw [testBit_orBits]
  have hbit : esqEventBitExit.testBit 7 = true := by decide
  simp [hbit]

theorem exiting_orBits_left {bits : Nat} (b : Nat) (h : bits.testBit 7 = true) :
    (orBits bits b).testBit 7 = true := by
  rw [testBit_orBits, h]
  simp

section

variable {c c' : SessionCell} {k : Kern} {l : WorkerList} {es : List Effect} {os : Int}

attribute [local simp] SessionCell.waiting SessionCell.removing SessionCell.polls
  SessionCell.ready Session.ready

/-- exit を受けた結果。 -/
structure TookNotice (c : SessionCell) (k : Kern) (l : WorkerList) (c' : SessionCell)
    (es : List Effect) : Prop where
  postOp : c'.session.postOp = popNoOp
  moves : ∃ l', c'.Parked (k.execs es) l' ∧ (Place.list l).moves es = some (.list l')
  notTail : .joinTail l ∉ es
  told : c'.Told
  sessionType : c'.session.sessionType = c.session.sessionType
  /-- もう exit を受けていれば、label は変わらない -/
  rank : c.waiting = false → c'.rank = c.rank
  /-- hash lock の session は list を移らない -/
  hash : c.session.sessionType = .waitForHashLock → es = []

/-- 一歩で変わらない欄。 -/
structure SessionCell.Same (c c' : SessionCell) : Prop where
  magic : c'.session.magic = c.session.magic
  sessionType : c'.session.sessionType = c.session.sessionType
  cb : c'.session.cb = c.session.cb
  lone : c'.session.Lone

theorem SessionCell.Parked.transfer {k' : Kern} {l' : WorkerList} (h : c.Parked k l)
    (hs : c.Same c') (hrests : c'.Rests l')
    (hremoved : c'.session.sessionType = .socketCb → c'.removing = true →
      c'.session.timingList = .ofNoTime)
    (harmed : c'.polls = true → k'.poll ≠ .idle)
    (hnotices : k'.notices = if c'.removing then [.removed] else []) : c'.Parked k' l' where
  magic := hs.magic.trans h.magic
  callable := by rw [hs.sessionType, hs.cb]; exact h.callable
  lone := hs.lone
  rests := hrests
  removed := hremoved
  armed := harmed
  notices := hnotices

theorem SessionCell.Parked.tookNotice_stay (h : c.Parked k l) (hs : c.Same c')
    (hw : c'.waiting = false) (hop : c'.session.postOp = popNoOp) (hrests : c'.Rests l)
    (hremoving : c'.removing = c.removing) (hpolls : c'.polls = true → c.polls = true)
    (htime : c'.session.timingList = c.session.timingList)
    (hexit : c'.session.exiting = true ∨ c'.session.sessionType = .multiSocketCb ∧
      c'.removing = true) : TookNotice c k l c' [] where
  postOp := hop
  moves := ⟨l, h.transfer hs hrests
    (fun ht hr => htime.trans (h.removed (hs.sessionType ▸ ht) (hremoving ▸ hr)))
    (fun hp => h.armed (hpolls hp)) (by rw [hremoving]; exact h.notices), rfl⟩
  notTail := List.not_mem_nil
  told := ⟨hw, hexit⟩
  sessionType := hs.sessionType
  rank _ := by unfold SessionCell.rank; rw [hs.magic, hs.sessionType, hremoving]
  hash _ := rfl

theorem SessionCell.Parked.tookNotice_active (h : c.Parked k l) (hs : c.Same c')
    (ht : c.session.sessionType ≠ .waitForHashLock)
    (hwas : c.waiting = true) (hw : c'.waiting = false) (hop : c'.session.postOp = popNoOp)
    (hrests : c'.Rests .active) (hl : l ≠ .active) (hremoving : c.removing = false)
    (hremoving' : c'.removing = false) (hpolls : c'.polls = true → c.polls = true)
    (hexit : c'.session.exiting = true) :
    TookNotice c k l c' [.left l, .joinTail .active] where
  postOp := hop
  moves := by
    have hk : k.execs [.left l, .joinTail .active] = k := rfl
    refine ⟨.active, h.transfer hs hrests (fun _ hr => ?_) (fun hp => ?_) ?_, by
      simp [Place.moves, Place.move]⟩
    · rw [hremoving'] at hr
      cases hr
    · rw [hk]
      exact h.armed (hpolls hp)
    · rw [hk, hremoving', h.notices, hremoving]
  notTail := by simpa using hl
  told := ⟨hw, Or.inl hexit⟩
  sessionType := hs.sessionType
  rank hc := by
    rw [hwas] at hc
    cases hc
  hash h := absurd h ht

theorem SessionCell.Parked.tookNotice_remove (h : c.Parked k c.session.timingList)
    (ht : c.session.sessionType = .socketCb) (hl : c.session.lc = .single .windedUp) {p : PtRun}
    (hp : p = { session := { c.session with
      postOp := popNoOp, eventBits := orBits c.session.eventBits esqEventBitExit } }) :
    TookNotice c k c.session.timingList
      { c with session := (SingleShot.removeFdThenActive p os).session }
      (SingleShot.removeFdThenActive p os).effects := by
  have hactive : c.session.timingList ≠ .active := timingList_ne_active _ _
  have hwas : c.waiting = true := by simp [ht, hl]
  have hrem : c.removing = false := by simp [ht, hl]
  have hexit := exiting_orBits c.session.eventBits
  subst hp
  unfold SingleShot.removeFdThenActive
  split
  · next hfd =>
    have hpolls : c.polls = true := by simpa [ht, hl] using hfd
    split
    · refine h.tookNotice_active ⟨rfl, rfl, rfl, h.lone⟩ (by simp [ht]) hwas ?_ rfl
        (.plain (.singleActive ht rfl) (by simp [ht])) hactive hrem ?_ (fun _ => hpolls)
        (exiting_orBits_left _ hexit)
      · simp [ht]
      · simp [ht]
    · -- 取り消しの完了が届くまで、no time の list で待つ
      have hk : k.exec .removeSocketFd = ⟨.idle, [.removed]⟩ := by
        have hn := h.notices
        rw [hrem] at hn
        cases hpoll : k.poll with
        | idle => exact absurd hpoll (h.armed hpolls)
        | _ => simp [Kern.exec, hpoll, hn]
      dsimp only [PtRun.changeToNoTimingList]
      split
      · refine ⟨rfl, ⟨.ofNoTime, h.transfer ⟨rfl, rfl, rfl, h.lone⟩
          (.plain (.singleRemoving ht rfl) (by simp [ht])) (fun _ _ => timingList_zero) ?_ ?_, ?_⟩,
          ?_, ⟨?_, Or.inl hexit⟩, rfl, ?_, by simp [ht]⟩
        · simp [ht]
        · show (k.exec .removeSocketFd).notices = _
          rw [hk]
          simp [ht]
        · simp [Place.moves, Place.move, Session.timingList, timingList_zero]
        · simp
        · simp [ht]
        · exact fun hc => absurd (hwas.symm.trans hc) (by decide)
      · next hz =>
        have hno : c.session.timingList = .ofNoTime := by
          rw [not_or, not_ne_iff, not_ne_iff] at hz
          exact (congrArg₂ timingList hz.1 hz.2).trans timingList_zero
        refine ⟨rfl, ⟨c.session.timingList, h.transfer ⟨rfl, rfl, rfl, h.lone⟩ ?_
          (fun _ _ => hno) ?_ ?_, rfl⟩, ?_, ⟨?_, Or.inl hexit⟩, rfl, ?_, by simp [ht]⟩
        · rw [hno]
          exact .plain (.singleRemoving ht rfl) (by simp [ht])
        · simp [ht]
        · simp [ht, Kern.execs, hk]
        · simp
        · simp [ht]
        · exact fun hc => absurd (hwas.symm.trans hc) (by decide)
  · refine h.tookNotice_active ⟨rfl, rfl, rfl, h.lone⟩ (by simp [ht]) hwas ?_ rfl
      (.plain (.singleActive ht rfl) (by simp [ht])) hactive hrem ?_ ?_ hexit
    · simp [ht]
    · simp [ht]
    · simp [ht]

theorem SessionCell.ready_single {a : ChassisAction} {p : PtRun} {lc : SingleShotLabel}
    (ht : c.session.sessionType = .socketCb) (hl : c.session.lc = .single lc)
    (hp : esqPtOfSingleShotSocket { c.ready.session with lc := .single lc } a.action a.os = .ok p)
    (hes : p.effects = es) : c.ready.step a = .ok ({ c.ready with session := p.session }, es) := by
  subst hes
  unfold SessionCell.step Session.step
  rw [show c.ready.session.sessionType = _ from ht]
  refine bind_eq_ok.mpr ⟨p, ?_, rfl⟩
  rw [← hl] at hp
  exact hp

theorem SessionCell.ready_multi {a : ChassisAction} {p : PtRun} {lc : MultiShotLabel}
    (ht : c.session.sessionType = .multiSocketCb) (hl : c.session.lc = .multi lc)
    (hp : esqPtOfMultiShotSocket { c.ready.session with lc := .multi lc } a.action a.os = .ok p)
    (hes : p.effects = es) : c.ready.step a = .ok ({ c.ready with session := p.session }, es) := by
  subst hes
  unfold SessionCell.step Session.step
  rw [show c.ready.session.sessionType = _ from ht]
  refine bind_eq_ok.mpr ⟨p, ?_, rfl⟩
  rw [← hl] at hp
  exact hp

theorem SessionCell.ready_mco {a : ChassisAction} {p : PtRun} {mco lc : McoLabel}
    (ht : c.session.sessionType = .mco) (hl : c.mco = lc)
    (hp : esqPtOfMco c.ready.session lc a.action a.os a.isEnd = .ok (p, mco))
    (hes : p.effects = es) :
    c.ready.step a = .ok ({ c.ready with session := p.session, mco }, es) := by
  subst hl hes
  unfold SessionCell.step
  rw [show c.ready.session.sessionType = _ from ht]
  exact bind_eq_ok.mpr ⟨_, hp, rfl⟩

theorem SessionCell.ready_hashLock {a : ChassisAction} {p : PtRun} {wait : HashWait}
    {lc : HashLockLabel}
    (ht : c.session.sessionType = .waitForHashLock) (hs : c.session.lc = .start)
    (hw : c.wait.lc = lc) (hp : esqPtOfHashLock c.ready.session { c.wait with lc } a.action a.params
      a.fetch = .ok (p, wait)) (hes : p.effects = es) :
    c.ready.step a = .ok ({ c.ready with session := p.session, wait }, es) := by
  subst hw hes
  unfold SessionCell.step
  rw [show c.ready.session.sessionType = _ from ht]
  dsimp only
  rw [if_pos (show c.ready.session.lc = .start from hs)]
  exact bind_eq_ok.mpr ⟨_, hp, rfl⟩

/-- **callback の間で止まっている session は exit を受け付け、待つのをやめる。** -/
theorem SessionCell.Parked.notifyExit (h : c.Parked k l) (os : Int) :
    ∃ c' es, c.ready.step { action := .notifyExit, os } = .ok (c', es) ∧
      TookNotice c k l c' es := by
  have hexit := exiting_orBits c.session.eventBits
  cases h.rests with
  | plain hrest hmulti =>
    cases hrest with
    | singleWindedUp ht hl =>
      refine ⟨_, _, ready_single ht hl (by rfl) (by rfl), ?_⟩
      exact h.tookNotice_remove ht hl (by rw [← hl]; rfl)
    | singleRemoving ht hl =>
      refine ⟨_, _, ready_single ht hl (by rfl) (by rfl), ?_⟩
      refine h.tookNotice_stay ⟨rfl, rfl, rfl, h.lone⟩ ?_ rfl
        (.plain (.singleRemoving ht rfl) fun hm => hmulti hm) ?_ ?_ rfl (Or.inl hexit)
      all_goals simp [ht, hl]
    | singleActive ht hl =>
      refine ⟨_, _, ready_single ht hl (by rfl) (by rfl), ?_⟩
      refine h.tookNotice_stay ⟨rfl, rfl, rfl, h.lone⟩ ?_ rfl
        (.plain (.singleActive ht rfl) fun hm => hmulti hm) ?_ ?_ rfl (Or.inl hexit)
      all_goals simp [ht, hl]
    | multiWindedUp ht hl =>
      refine ⟨_, _, ready_multi ht hl (by rfl) (by rfl), ?_⟩
      refine h.tookNotice_active ⟨rfl, rfl, rfl, h.lone⟩ (by simp [ht]) ?_ ?_ rfl
        (.plain (.multiActive ht rfl) fun hm => hmulti hm) (timingList_ne_active _ _) ?_ ?_ ?_ hexit
      all_goals simp [ht, hl]
    | multiRemoving ht hl =>
      refine ⟨_, _, ready_multi ht hl (by rfl) (by rfl), ?_⟩
      refine h.tookNotice_stay ⟨rfl, rfl, rfl, h.lone⟩ ?_ rfl
        (.plain (.multiRemoving ht rfl) fun hm => hmulti hm) ?_ ?_ rfl (Or.inr ⟨ht, ?_⟩)
      all_goals simp [ht, hl]
    | multiActive ht hl =>
      refine ⟨_, _, ready_multi ht hl (by rfl) (by rfl), ?_⟩
      refine h.tookNotice_stay ⟨rfl, rfl, rfl, h.lone⟩ ?_ rfl
        (.plain (.multiActive ht rfl) fun hm => hmulti hm) ?_ ?_ rfl (Or.inl hexit)
      all_goals simp [ht, hl]
    | mcoWindedUp ht hl =>
      refine ⟨_, _, ready_mco ht hl (by rfl) (by rfl), ?_⟩
      refine h.tookNotice_active ⟨rfl, rfl, rfl, h.lone⟩ (by simp [ht]) ?_ ?_ rfl
        (.plain (.mcoActive ht rfl) fun hm => hmulti hm) (timingList_ne_active _ _) ?_ ?_ ?_ hexit
      all_goals simp [ht, hl]
    | mcoActive ht hl =>
      refine ⟨_, _, ready_mco ht hl (by rfl) (by rfl), ?_⟩
      refine h.tookNotice_stay ⟨rfl, rfl, rfl, h.lone⟩ ?_ rfl
        (.plain (.mcoActive ht rfl) fun hm => hmulti hm) ?_ ?_ rfl (Or.inl hexit)
      all_goals simp [ht, hl]
  | hashWindedUp ht hs hw =>
    -- label だけが変わり、timing list に残る
    refine ⟨_, _, ready_hashLock ht hs hw (by rfl) (by rfl), ?_⟩
    have hn := h.notices
    refine ⟨rfl, ⟨_, h.transfer ⟨rfl, rfl, rfl, h.lone⟩ (.hashLeftBehind ht hs rfl) ?_ ?_ ?_, rfl⟩,
      List.not_mem_nil, ⟨?_, Or.inl hexit⟩, rfl, ?_, fun _ => rfl⟩
    all_goals simp_all [Kern.execs]
  | hashActive ht hs hw =>
    refine ⟨_, _, ready_hashLock ht hs hw (by rfl) (by rfl), ?_⟩
    refine h.tookNotice_stay ⟨rfl, rfl, rfl, h.lone⟩ ?_ rfl (.hashActive ht hs rfl) ?_ ?_ rfl
      (Or.inl hexit)
    all_goals simp [ht]
  | hashLeftBehind ht hs hw =>
    refine ⟨_, _, ready_hashLock ht hs hw (by rfl) (by rfl), ?_⟩
    refine h.tookNotice_stay ⟨rfl, rfl, rfl, h.lone⟩ ?_ rfl (.hashLeftBehind ht hs rfl) ?_ ?_ rfl
      (Or.inl hexit)
    all_goals simp [ht]

/-! ## 取り消しの完了を受ける -/

theorem SessionCell.Parked.list_of_removing (h : c.Parked k l) (hr : c.removing = true) :
    l = .ofNoTime := by
  cases h.rests with
  | plain hrest hmulti =>
    cases hrest with
    | singleRemoving => rfl
    | multiRemoving => rfl
    | _ ht hl => simp [ht, hl] at hr
  | _ ht => simp [ht] at hr

theorem SessionCell.Parked.aioRemoved_single (h : c.Parked k l) (hr : c.removing = true)
    (ht : c.session.sessionType = .socketCb) (os : Int) :
    ∃ c', c.ready.step { action := .notifyAioRemoved, os }
        = .ok (c', [.left l, .joinTail .active]) ∧
      c'.session.postOp = popNoOp ∧ (∀ k', k'.notices = [] → c'.Parked k' .active) ∧
      (c.Told → c'.Told) ∧ c'.rank < c.rank := by
  have hl : c.session.lc = .single .waitForRemovedThenActive := by
    simpa [ht] using hr
  rw [h.list_of_removing hr, ← h.removed ht hr]
  refine ⟨_, ready_single ht hl (by rfl) (by rfl), rfl,
    fun k' hk' => ?_, fun htold => ⟨?_, Or.inl ?_⟩, ?_⟩
  · refine h.transfer ⟨rfl, rfl, rfl, h.lone⟩
      (.plain (.singleActive ht rfl) (by simp [ht])) ?_ ?_ ?_
    all_goals simp [ht, hk']
  · simp [ht]
  · exact htold.exiting.resolve_right (by simp [ht])
  · simp [SessionCell.rank, ht, hl, h.magic]

theorem SessionCell.Parked.aioRemoved_multi (h : c.Parked k l) (hr : c.removing = true)
    (ht : c.session.sessionType = .multiSocketCb) (os : Int) :
    ∃ c', c.ready.step { action := .notifyAioRemoved, os } = .ok (c', [.left l]) ∧
      c'.session.postOp = popFreeSession ∧ c'.session.Lone := by
  have hl : c.session.lc = .multi .waitForRemoved := by
    simpa [ht] using hr
  have hno : c.session.timingList = .ofNoTime := by
    cases h.rests with
    | plain _ hmulti =>
      obtain ⟨h0, h1⟩ := hmulti ht
      exact (congrArg₂ timingList h0 h1).trans timingList_zero
    | _ ht' => simp [ht] at ht'
  rw [h.list_of_removing hr, ← hno]
  exact ⟨_, ready_multi ht hl (by rfl) (by rfl), rfl, h.lone⟩

/-! ## callback を動かす -/

/-- callback か coroutine が動いている。 -/
def SessionCell.running (c : SessionCell) : Prop :=
  match c.session.sessionType with
  | .socketCb => c.session.lc = .single .executeCb
  | .multiSocketCb =>
    c.session.lc = .multi .executeCb ∧ c.session.timeouts = 0 ∧ c.session.timeoutms = 0
  | .mco => c.mco = .executeCb
  | .waitForHashLock => c.session.lc = .start ∧ c.wait.lc = .executeCb
  | _ => False

attribute [local simp] SessionCell.running

/-- `ACTION_EXECUTE_CB` を受けた結果。 -/
structure SessionCell.Called (c c' : SessionCell) : Prop extends c.Same c' where
  postOp : c'.session.postOp = popReturnValue
  r : c'.session.r = 0
  exiting : c'.session.exiting = c.session.exiting
  fd : c'.session.fd = c.session.fd
  running : c'.running

theorem SessionCell.Parked.executeCb (h : c.Parked k .active) (os : Int) :
    ∃ c', c.ready.step { action := .executeCb, os } = .ok (c', [.left .active]) ∧ c.Called c' := by
  have hne := timingList_ne_active c.session.timeouts c.session.timeoutms
  generalize hla : WorkerList.active = l at h
  cases h.rests with
  | plain hrest hmulti =>
    cases hrest with
    | singleActive ht hl =>
      refine ⟨_, ready_single ht hl (by rfl) (by rfl), ?_⟩
      refine ⟨⟨rfl, rfl, rfl, h.lone⟩, rfl, rfl, rfl, rfl, ?_⟩
      simp [ht]
    | multiActive ht hl =>
      refine ⟨_, ready_multi ht hl (by rfl) (by rfl), ?_⟩
      refine ⟨⟨rfl, rfl, rfl, h.lone⟩, rfl, rfl, rfl, rfl, ?_⟩
      simpa [ht] using hmulti ht
    | mcoActive ht hl =>
      refine ⟨_, ready_mco ht hl (by rfl) (by rfl), ?_⟩
      refine ⟨⟨rfl, rfl, rfl, h.lone⟩, rfl, rfl, rfl, rfl, ?_⟩
      simp [ht]
    | singleRemoving => cases hla
    | multiRemoving => cases hla
    | _ => exact absurd hla.symm hne
  | hashActive ht hs hw =>
    refine ⟨_, ready_hashLock ht hs hw (by rfl) (by rfl), ?_⟩
    refine ⟨⟨rfl, rfl, rfl, h.lone⟩, rfl, rfl, rfl, rfl, ?_⟩
    simp [ht, hs]
  | _ => exact absurd hla.symm hne

theorem SessionCell.Parked.polls_of_multi (h : c.Parked k .active)
    (ht : c.session.sessionType = .multiSocketCb) (hfd : fdNeedInstall c.session.fd) :
    c.polls = true := by
  have hrests := h.rests
  have hne := timingList_ne_active c.session.timeouts c.session.timeoutms
  generalize hla : WorkerList.active = l at hrests
  cases hrests with
  | plain hrest _ =>
    cases hrest with
    | multiWindedUp => exact absurd hla.symm hne
    | multiRemoving => cases hla
    | multiActive _ hl => simp [ht, hl, hfd]
    | _ ht' => simp [ht] at ht'
  | _ ht' => simp [ht] at ht'

theorem SessionCell.windUp_ends (hrun : c.running) (hm : c.session.sessionType ≠ .multiSocketCb)
    (hlone : c.session.Lone) (os : Int) :
    ∃ c', c.ready.step { action := .windUp, os, isEnd := true } = .ok (c', []) ∧
      c'.session.postOp = popFreeSession ∧ c'.session.Lone := by
  unfold SessionCell.running at hrun
  cases ht : c.session.sessionType with
  | socketCb =>
    rw [ht] at hrun
    exact ⟨_, ready_single ht hrun (by rfl) (by rfl), rfl, hlone⟩
  | multiSocketCb => exact absurd ht hm
  | mco =>
    rw [ht] at hrun
    exact ⟨_, ready_mco ht hrun (by rfl) (by rfl), rfl, hlone⟩
  | waitForHashLock =>
    rw [ht] at hrun
    exact ⟨_, ready_hashLock ht hrun.1 hrun.2 (by rfl) (by rfl), rfl, hlone⟩
  | _ =>
    rw [ht] at hrun
    exact hrun.elim

/-- multi shot が `esq_session_remove_req` を呼んでから終わるまで。 -/
inductive SessionCell.Withdrawn (k : Kern) (c : SessionCell) : List Effect → Prop where
  | ended (hop : c.session.postOp = popFreeSession) (hlone : c.session.Lone) : c.Withdrawn k []
  /-- 取り消しの完了を待つ -/
  | removing (hop : c.session.postOp = popNoOp)
      (ht : c.session.sessionType = .multiSocketCb) (hrank : c.rank = 1) (htold : c.Told)
      (hparked : c.Parked (k.execs [.removeSocketFd, .joinHead .ofNoTime]) .ofNoTime) :
      c.Withdrawn k [.removeSocketFd, .joinHead .ofNoTime]

theorem SessionCell.removeFd_withdraws (hrun : c.running)
    (ht : c.session.sessionType = .multiSocketCb) (hm : c.session.magic = true)
    (hcb : c.session.cb ≠ 0) (hlone : c.session.Lone)
    (harmed : fdNeedInstall c.session.fd → k.poll ≠ .idle) (hn : k.notices = []) (os os' : Int) :
    ∃ c₁ c₂ es, c.ready.step { action := .removeFd, os } = .ok (c₁, es) ∧
      c₁.session.postOp = popNoOp ∧ c₁.session.magic = true ∧
      (∀ isEnd, c₁.ready.step { action := .windUp, os := os', isEnd } = .ok (c₂, [])) ∧
      c₂.Withdrawn k es := by
  unfold SessionCell.running at hrun
  rw [ht] at hrun
  obtain ⟨hl, h0, h1⟩ := hrun
  by_cases hfd : fdNeedInstall c.session.fd
  · by_cases hos : os ≠ 0
    · exact ⟨_, _, _, ready_multi ht hl ((if_pos hfd).trans (if_pos hos)) rfl, rfl, hm,
        fun _ => ready_multi ht rfl (p := PtRun.post { session := _ } popFreeSession) rfl rfl,
        .ended rfl hlone⟩
    · have htime : timingList c.session.timeouts c.session.timeoutms = .ofNoTime :=
        (congrArg₂ timingList h0 h1).trans timingList_zero
      refine ⟨_, _, _, ready_multi ht hl ((if_pos hfd).trans (if_neg hos))
        (congrArg (fun l => [Effect.removeSocketFd, .joinHead l]) htime), rfl, hm,
        fun _ => ready_multi ht rfl (p := PtRun.goto (PtRun.post { session := _ } popNoOp)
          (.multi .waitForRemoved)) rfl rfl, .removing rfl ht ?_ ⟨?_, Or.inr ⟨ht, ?_⟩⟩ ?_⟩
      · simp [SessionCell.rank, ht, hm]
      · simp [ht]
      · simp [ht]
      · have hk : k.exec .removeSocketFd = ⟨.idle, [.removed]⟩ := by
          cases hpoll : k.poll with
          | idle => exact absurd hpoll (harmed hfd)
          | _ => simp [Kern.exec, hpoll, hn]
        refine ⟨hm, Or.inr hcb, hlone, .plain (.multiRemoving ht rfl) fun _ => ⟨h0, h1⟩,
          fun hs => ?_, fun hp => ?_, ?_⟩
        · exact absurd (ht.symm.trans hs) (by decide)
        · simp [ht] at hp
        · show (k.exec .removeSocketFd).notices = _
          rw [hk]
          simp [ht]
  · exact ⟨_, _, _, ready_multi ht hl (if_neg hfd) rfl, rfl, hm,
      fun _ => ready_multi ht rfl (p := PtRun.post { session := _ } popFreeSession) rfl rfl,
      .ended rfl hlone⟩

end

end Esq
