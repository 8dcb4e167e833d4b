import Esq.Session.SocketFd

/-!
# fd を仕掛ける要求と実行

要求の後の実行を、fd が仕掛けられるまで追う。他の session への操作は、待っている session の
欄を書き換えない。

* `follows_step` — 待っている session は、待ち続けるか、求めたとおりに仕掛ける
* `socket_fd_armed_as_requested_iff` — 求めたとおりに仕掛けられるための、ちょうどの条件
-/

namespace Esq

open Infra

/-! ## `Heap` の操作 -/

/-- まだ仕掛けていなくて、求めた欄を持って待つか、次の要求まで仕掛けない。 -/
structure Heap.Waits (h : Heap) (x : Nat) (params : FdParams) : Prop where
  poll : (h.effects x).findSome? Effect.poll = none
  cell : (h.cell x).Pending params ∨ (h.cell x).Spent

/-- どの coroutine の session も、待つ event と timeout の欄が 0 である。 -/
def Heap.AllUnset (h : Heap) : Prop := ∀ x, (h.cell x).Unset

section

variable {h h' : Heap} {x y p : Nat} {c : SessionCell} {es es' : List Effect} {a : ChassisAction}
  {r : Int} {params : FdParams}

theorem findSome?_poll_append (h₁ : es.findSome? Effect.poll = none)
    (h₂ : es'.findSome? Effect.poll = none) : (es ++ es').findSome? Effect.poll = none := by
  rw [List.findSome?_append, h₁, h₂]
  rfl

theorem SessionCell.Pending.notified {d d' : SessionCell} {bits : Nat}
    (hd : d.Pending params ∨ d.Spent)
    (hstep : d.ready.step { action := .notifyEvent bits } = .ok (d', es)) :
    es.findSome? Effect.poll = none ∧ (d'.Pending params ∨ d'.Spent) := by
  rcases hd with hd | hd
  · have hready : d.ready.Pending params := ⟨hd.sessionType, hd.lc, hd.fields.fd,
      hd.fields.expEventBits, hd.fields.timeouts, hd.fields.timeoutms⟩
    cases (hready.step hstep).1 with
    | waits poll next => exact ⟨poll, next⟩
    | arms caller => rcases caller with h | h <;> cases h
  · have hready : d.ready.Spent := hd
    obtain ⟨hpoll, hspent⟩ := hready.step rfl (fun q h => by cases h) hstep
    exact ⟨hpoll, Or.inr fun ht => (hspent ht).1⟩

theorem Heap.Waits.touched (hw : h.Waits x params) (ht : h.Touched h' x) : h'.Waits x params := by
  cases ht with
  | alone same =>
    refine ⟨by rw [same.effects]; exact hw.poll, ?_⟩
    exact hw.cell.imp (·.of_work same.work) (·.of_work same.work)
  | notified d es bits same step log =>
    obtain ⟨hpoll, hnext⟩ := SessionCell.Pending.notified
      (hw.cell.imp (·.of_work same) (·.of_work same)) step
    exact ⟨by rw [log]; exact findSome?_poll_append hw.poll hpoll, hnext⟩

theorem Heap.Touched.unset (ht : h.Touched h' x) (hu : (h.cell x).Unset) : (h'.cell x).Unset := by
  cases ht with
  | alone same => exact hu.of_work same.work
  | notified d es bits same step log =>
    have hd : d.Unset := hu.of_work same
    have hready : d.ready.Unset := hd
    exact hready.step step

theorem Heap.AllUnset.commit (hu : h.AllUnset) (hc : c.Unset) : (h.commit x c es).AllUnset := by
  intro y
  by_cases hy : y = x
  · subst hy
    rwa [Heap.commit_cell_self]
  · rw [Heap.commit_cell_of_ne hy]
    exact hu y

theorem Heap.AllUnset.takeAction (hu : h.AllUnset) (hr : h.esqSessionTakeAction x a = .ok (r, h')) :
    h'.AllUnset := by
  cases hm : (h.session x).magic with
  | true =>
    rw [Heap.esqSessionTakeAction_eq hm] at hr
    obtain ⟨⟨c, es⟩, hact, hpost⟩ := bind_eq_ok.mp hr
    exact fun y => (Heap.touched_postActions hpost).unset (hu.commit ((hu x).act hact) y)
  | false =>
    rw [Heap.esqSessionTakeAction_of_not_magic hm] at hr
    cases hr
    exact hu

theorem Heap.Waits.takeAction (hw : h.Waits x params)
    (ha : y = x → ∀ q, a.action ≠ .addSockFdSingle q)
    (hr : h.esqSessionTakeAction y a = .ok (r, h')) :
    h'.Waits x params ∨ (a.action = .windUp ∨ a.action = .pickUp) ∧ (h.effects x = [] →
      ∃ q, armingOf (h'.session x) (h'.effects x) = some q ∧ q.Meets params) := by
  by_cases hy : y = x
  case neg => exact Or.inl (hw.touched (Heap.takeAction_of_ne hy hr))
  subst hy
  rcases Heap.takeAction_self hr with ⟨-, rfl⟩ | ⟨c, es, hact, hpost, htouched⟩
  · exact Or.inl hw
  have waits (hpoll : es.findSome? Effect.poll = none) (hc : c.Pending params ∨ c.Spent) :
      h'.Waits y params := by
    have hcommit : (h.commit y c es).Waits y params := by
      refine ⟨?_, by rwa [Heap.commit_cell_self]⟩
      rw [Heap.effects_commit_self]
      exact findSome?_poll_append hw.poll hpoll
    exact hcommit.touched htouched
  rcases hw.cell with hc | hc
  · cases hc.act hact with
    | waits poll next => exact Or.inl (waits poll next)
    | arms caller op q armed meets =>
      refine Or.inr ⟨caller, fun hnil => ⟨q, ?_, meets⟩⟩
      rw [Heap.postActions_noOp (by rwa [Heap.commit_session_self])] at hpost
      cases hpost
      rw [Heap.effects_commit_self, hnil, Heap.commit_session_self]
      exact armed
  · obtain ⟨hpoll, hspent⟩ := hc.act (ha rfl) hact
    exact Or.inl (waits hpoll (Or.inr hspent))

theorem Heap.AllUnset.startMco (hu : h.AllUnset) (hr : h.esqStartMcoSession x = .ok h') :
    h'.AllUnset := by
  intro y
  by_cases hy : y = x
  case neg =>
    rw [(Heap.startMco_spec hr).2.2.2 y hy]
    exact hu y
  subst hy
  unfold Heap.esqStartMcoSession at hr
  obtain ⟨⟨r, v⟩, htake, hr⟩ := bind_eq_ok.mp hr
  cases hr
  have hcell : ((h.esqSessionNew y).esqSessionInitMcoParams y).cell y
      = SessionCell.new.withSession fun s => { s with sessionType := .mco } := by
    unfold Heap.esqSessionInitMcoParams
    rw [Heap.cell_modify, if_pos rfl]
    unfold Heap.esqSessionNew
    dsimp only
    rw [Function.update_self]
  have hm : (((h.esqSessionNew y).esqSessionInitMcoParams y).session y).magic = true := by
    unfold Heap.session
    rw [hcell]
    rfl
  rw [Heap.esqSessionTakeAction_eq hm, hcell] at htake
  obtain ⟨⟨c, es⟩, hact, hpost⟩ := bind_eq_ok.mp htake
  have hc : c.Unset := by
    cases hact
    exact fun _ => ⟨nofun, rfl, rfl, rfl⟩
  refine (Heap.touched_postActions hpost).unset ?_
  rwa [Heap.commit_cell_self]

end

/-! ## 実行 -/

section

variable {s t : FamilyRun} {x : Nat} {op : FamilyOp} {params : FdParams}

theorem Heap.allUnset_init : Heap.init.AllUnset := fun _ => nofun

theorem allUnset_step (hu : s.heap.AllUnset) (hs : familyStep s op = some t) :
    t.heap.AllUnset := by
  have hquiet : s.quiet.AllUnset := hu
  unfold familyStep at hs
  cases op with
  | new y =>
    dsimp only at hs
    split at hs <;> cases hs
    intro z
    show ((s.quiet.esqSessionNew y).cell z).Unset
    unfold Heap.esqSessionNew
    dsimp only
    by_cases hz : z = y
    · subst hz
      rw [Function.update_self]
      exact nofun
    · rw [Function.update_of_ne hz]
      exact hu z
  | startMco y =>
    dsimp only at hs
    split at hs
    · cases hs
    · split at hs <;> cases hs
      next h hr => exact hquiet.startMco hr
  | act y a =>
    dsimp only at hs
    split at hs
    · split at hs <;> cases hs
      next r h hr => exact hquiet.takeAction hr
    · cases hs
  | bundle p c cb =>
    dsimp only at hs
    split at hs
    · split at hs <;> cases hs
      next r h hr =>
        unfold Heap.esqSessionBundleChild at hr
        split at hr
        · obtain ⟨⟨r₁, u⟩, hu₁, hr⟩ := bind_eq_ok.mp hr
          dsimp only at hr
          split at hr
          · cases hr
            exact hquiet.takeAction hu₁
          · exact (hquiet.takeAction hu₁).takeAction hr
        · cases hr
          exact hquiet
    · cases hs
  | collect p =>
    dsimp only at hs
    split at hs
    · split at hs <;> cases hs
      next h hr =>
        exact fun z => (hquiet z).of_work (Heap.leftAlone_executeSessionDoneCb hr).work
    · cases hs

/-- 仕掛けるまで待つか、求めたとおりに仕掛けたかである。 -/
def FamilyRun.Follows (x : Nat) (params : FdParams) (s : FamilyRun) : Prop :=
  s.heap.Waits x params ∨ ∃ q, s.armed x = some q ∧ q.Meets params

/-- **待っている session は、どの操作の後も、待っているか、求めたとおりに仕掛けたかである。** -/
theorem follows_step (hw : s.heap.Waits x params) (hop : op.Keeps x)
    (hs : familyStep s op = some t) : t.Follows x params := by
  have hquiet : s.quiet.Waits x params := ⟨rfl, hw.cell⟩
  unfold familyStep at hs
  cases op with
  | new y =>
    dsimp only at hs
    split at hs <;> cases hs
    refine Or.inl (hquiet.touched (.alone ⟨?_, rfl⟩))
    show ((s.quiet.esqSessionNew y).cell x).work = _
    unfold Heap.esqSessionNew
    dsimp only
    rw [Function.update_of_ne (Ne.symm hop)]
  | startMco y =>
    dsimp only at hs
    split at hs
    · cases hs
    · split at hs <;> cases hs
      next h hr =>
        obtain ⟨-, ⟨es, hlog⟩, -, hne⟩ := Heap.startMco_spec hr
        refine Or.inl (hquiet.touched (.alone ⟨?_, ?_⟩))
        · show (h.cell x).work = _
          rw [hne x (Ne.symm hop)]
        · exact Heap.effects_eq_of_log hlog (filterMap_effectOf_of_ne hop es)
  | act y a =>
    dsimp only at hs
    split at hs
    · split at hs <;> cases hs
      next r h hr =>
        rcases hquiet.takeAction hop hr with hw' | ⟨-, harmed⟩
        · exact Or.inl hw'
        · exact Or.inr (harmed rfl)
    · cases hs
  | bundle p c cb =>
    dsimp only at hs
    split at hs
    · split at hs <;> cases hs
      next r h hr =>
        left
        show h.Waits x params
        -- 親子を結ぶ二つの action では仕掛けない
        have take {h h' : Heap} {y : Nat} {r : Int} {action : Action} (hw : h.Waits x params)
            (hb : action.bundles = true)
            (hr : h.esqSessionTakeAction y { action } = .ok (r, h')) : h'.Waits x params := by
          have hne : ∀ q, action ≠ .addSockFdSingle q := by
            rintro q rfl
            cases hb
          rcases hw.takeAction (fun _ => hne) hr with hw' | ⟨hcaller | hcaller, -⟩
          · exact hw'
          · dsimp only at hcaller
            rw [hcaller] at hb
            cases hb
          · dsimp only at hcaller
            rw [hcaller] at hb
            cases hb
        unfold Heap.esqSessionBundleChild at hr
        split at hr
        · obtain ⟨⟨r₁, u⟩, hu₁, hr⟩ := bind_eq_ok.mp hr
          dsimp only at hr
          split at hr
          · cases hr
            exact take hquiet rfl hu₁
          · exact take (take hquiet rfl hu₁) rfl hr
        · cases hr
          exact hquiet
    · cases hs
  | collect p =>
    dsimp only at hs
    split at hs
    · split at hs <;> cases hs
      next h hr =>
        exact Or.inl (hquiet.touched (.alone (Heap.leftAlone_executeSessionDoneCb hr)))
    · cases hs

theorem FamilyRun.Follows.run {ops : List FamilyOp} {p : Arming} (hf : s.Follows x params)
    (hops : ∀ op ∈ ops, op.Keeps x)
    (hp : firstSeen familyStep (FamilyRun.armed x) s ops = some p) : p.Meets params := by
  refine firstSeen_of_step (P := FamilyRun.Follows x params) (Q := fun p => p.Meets params) ?_ hf
    ?_ hp
  · rintro s b (hw | ⟨q, hq, hmeets⟩) hb
    · have hnone : s.armed x = none := armingOf_eq_none.mpr hw.poll
      rw [hnone] at hb
      cases hb
    · rw [hq] at hb
      cases hb
      exact hmeets
  · rintro op hop s t (hw | ⟨q, hq, -⟩) hnone hst
    · exact follows_step hw (hops op hop) hst
    · rw [hq] at hnone
      cases hnone

end

/-! ## 要求の結果 -/

section

variable {s : FamilyRun} {h : Heap} {x : Nat} {params : FdParams} {os : Int}

theorem esqSessionSetSocketFd_take {r : Int} {h' : Heap}
    (hc : h.esqSessionSetSocketFd x params os = .ok (r, h')) :
    h.esqSessionTakeAction x { action := .addSockFdSingle params, os } = .ok (r, h') := by
  unfold Heap.esqSessionSetSocketFd at hc
  split at hc
  · cases hc
  · exact hc

theorem follows_request {r : Int} (ht : (s.heap.session x).sessionType ≠ .mco)
    (hr : s.quiet.esqSessionSetSocketFd x params os = .ok (r, h)) (hok : r = esqOk) :
    (s.observe h).Follows x params := by
  rcases Heap.takeAction_self (esqSessionSetSocketFd_take hr) with
    ⟨hr, -⟩ | ⟨c, es, hact, -, htouched⟩
  · exact absurd (hok.symm.trans hr) (by decide)
  · obtain ⟨hpoll, hnext⟩ := SessionCell.act_request ht rfl hact
    have hcommit : (s.quiet.commit x c es).Waits x params := by
      refine ⟨?_, by rwa [Heap.commit_cell_self]⟩
      rw [Heap.effects_commit_self]
      exact findSome?_poll_append rfl hpoll
    exact Or.inl (hcommit.touched htouched)

theorem Heap.postActions_returnValue (hop : (h.session x).postOp = popReturnValue) :
    h.postActions x = .ok ((h.session x).r, h) := by
  unfold Heap.postActions
  rw [hop]
  rfl

theorem pollEvents_zero : pollEvents 0 = (false, false) := by decide

theorem armed_request_mco (hu : s.heap.AllUnset)
    (ht : (s.heap.session x).sessionType = .mco) (hfd : fdNeedInstall params.fd)
    (hr : s.quiet.esqSessionSetSocketFd x params os = .ok (esqOk, h)) :
    (s.observe h).armed x = some {
      fd := params.fd, expEventBits := 0, bucket := some .ofNoTime, deadline := none } := by
  rcases Heap.takeAction_self (esqSessionSetSocketFd_take hr) with
    ⟨hr, -⟩ | ⟨c, es, hact, hpost, -⟩
  · exact absurd hr (by decide)
  · obtain ⟨hop, harmed⟩ := SessionCell.act_request_mco (hu x) ht hfd rfl hact
    rw [Heap.postActions_returnValue (by rwa [Heap.commit_session_self])] at hpost
    obtain ⟨hok, rfl⟩ := Prod.mk.inj (Except.ok.inj hpost)
    rw [Heap.commit_session_self] at hok
    have heffects : (s.quiet.commit x c es).effects x = es := Heap.effects_commit_self
    show armingOf ((s.quiet.commit x c es).session x) ((s.quiet.commit x c es).effects x) = _
    rw [heffects, Heap.commit_session_self]
    exact harmed.resolve_left fun hne => hne hok

/--
**求めた event と timeout で fd が仕掛けられるための、ちょうどの条件。**

session が coroutine でないか、求めたものが「READ も WRITE も待たず、締め切りも無い」である。
-/
theorem socket_fd_armed_as_requested_iff {ops : List FamilyOp}
    (hrun : runFrom familyStep FamilyRun.init ops = some s)
    (hfd : fdNeedInstall params.fd)
    (hcall : s.quiet.esqSessionSetSocketFd x params os = .ok (esqOk, h)) :
    (∀ rest p, (∀ op ∈ rest, FamilyOp.Keeps x op) →
      firstSeen familyStep (FamilyRun.armed x) (s.observe h) rest = some p → p.Meets params) ↔
    ((s.heap.session x).sessionType = .mco → pollEvents params.expEventBits = (false, false)
      ∧ timingList params.timeouts params.timeoutms = .ofNoTime) := by
  have hu : s.heap.AllUnset := runFrom_invariant' (P := fun s => s.heap.AllUnset)
    (fun _ _ _ => allUnset_step) Heap.allUnset_init hrun
  by_cases ht : (s.heap.session x).sessionType = .mco
  case neg =>
    have hfollows := follows_request ht hcall rfl
    exact ⟨fun _ hmco => absurd hmco ht, fun _ rest p hops hp => hfollows.run hops hp⟩
  have harmed := armed_request_mco hu ht hfd hcall
  constructor
  · intro hall _
    obtain ⟨-, hevents, hbucket, -⟩ :=
      hall [] _ (fun _ hop => absurd hop List.not_mem_nil) harmed
    exact ⟨hevents.symm.trans pollEvents_zero, (Option.some.inj hbucket).symm⟩
  · intro hcond rest p _ hp
    obtain ⟨hevents, hlist⟩ := hcond ht
    rw [firstSeen_of_seen harmed] at hp
    cases hp
    exact ⟨rfl, pollEvents_zero.trans hevents.symm, congrArg some hlist.symm, by rw [hlist]; rfl⟩

/-- 新しい session 0 に、fd 5 の READ を 10 秒まで待つことを求める。 -/
theorem socket_fd_armed_as_requested_new_session : ∃ s h,
    runFrom familyStep FamilyRun.init [.new 0] = some s ∧
    (s.quiet.esqSessionSetSocketFd 0
      { fd := 5, expEventBits := esqEventBitRead, timeouts := 10, cb := 1 } 0 = .ok (esqOk, h)) ∧
    firstSeen familyStep (FamilyRun.armed 0) (s.observe h)
      [.act 0 { action := .windUp }, .act 0 { action := .pickUp }] = some {
        fd := 5, expEventBits := esqEventBitRead, bucket := some .ofLongerThan10s,
        deadline := some (10, 0) } ∧
    ∀ rest p, (∀ op ∈ rest, FamilyOp.Keeps 0 op) →
      firstSeen familyStep (FamilyRun.armed 0) (s.observe h) rest = some p →
      p.Meets { fd := 5, expEventBits := esqEventBitRead, timeouts := 10, cb := 1 } := by
  refine ⟨_, _, rfl, rfl, by decide +kernel, ?_⟩
  exact (@socket_fd_armed_as_requested_iff _ _ _ _ 0 [.new 0] rfl (by decide) rfl).mpr
    fun hmco => absurd hmco (by decide)

/--
coroutine が、fd 5 の READ を 10 秒まで待つことを求める。

poll は READ を待たず、session は締め切りを見ない list に入る。
-/
theorem socket_fd_of_coroutine_waits_for_nothing : ∃ s h,
    runFrom familyStep FamilyRun.init [.startMco 0, .act 0 { action := .executeCb }] = some s ∧
    s.quiet.esqSessionSetSocketFd 0
      { fd := 5, expEventBits := esqEventBitRead, timeouts := 10 } 0 = .ok (esqOk, h) ∧
    ∃ p, firstSeen familyStep (FamilyRun.armed 0) (s.observe h) [] = some p ∧
      ¬ p.Meets { fd := 5, expEventBits := esqEventBitRead, timeouts := 10 } := by
  refine ⟨_, _, rfl, rfl, ⟨5, 0, some .ofNoTime, none⟩, by decide +kernel, ?_⟩
  rintro ⟨-, hevents, -, -⟩
  exact absurd hevents (by decide)

end

end Esq
