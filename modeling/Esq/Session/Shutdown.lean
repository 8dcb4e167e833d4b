import Esq.Session.Parked
import Mathlib.Algebra.BigOperators.Group.Finset.Basic
import Mathlib.Algebra.Order.BigOperators.Group.Finset

/-!
# worker を終わらせる

server の stop flag を見た worker は、list に session が残っていれば exit を知らせて loop を続け、
残っていなければ抜ける。exit を受けた session は、動くたびに終わりに近づく
（`TimedWorker.potential`）。

* `Held.notifyExitToAllSessions` — 六つの list の session が、一度ずつ exit を受ける
* `Closing.turn` — その後の一回りは、残りの回数を減らすか、loop を抜ける
* `worker_shutdown` — 抜けるのは、hash lock を待つ session が active list の外に無いときである
-/

namespace Esq

open Infra

/-! ## 一つの session の他は変わらない -/

/-- 変わるのは session `x` の欄と poll だけで、queue に増えるのは `x` の取り消しの完了だけである。 -/
structure OnlyAt (x : Nat) (w w' : TimedWorker) : Prop where
  cell : ∀ y, y ≠ x → w'.cell y = w.cell y
  kern : ∀ y, y ≠ x → w'.worker.kern y = w.worker.kern y
  news : w'.worker.newEnds = w.worker.newEnds
  stop : w.stopFlag = true → w'.stopFlag = true
  cq : ∀ c ∈ w'.worker.cq, c ∈ w.worker.cq ∨ c = ⟨x, -ecanceled⟩

section

variable {w w' w'' : TimedWorker} {x y : Nat} {c : SessionCell} {es : List Effect}
  {a : ChassisAction} {t : Option TimeVal} {m m' : WorkerList → List Nat} {p q : Place}

theorem OnlyAt.trans (h : OnlyAt x w w') (h' : OnlyAt x w' w'') : OnlyAt x w w'' where
  cell y hy := (h'.cell y hy).trans (h.cell y hy)
  kern y hy := (h'.kern y hy).trans (h.kern y hy)
  news := h'.news.trans h.news
  stop hw := h'.stop (h.stop hw)
  cq c hc := (h'.cq c hc).elim (h.cq c) Or.inr

theorem execEffects_cq : ∀ (es : List Effect) (w : Worker),
    ∀ c ∈ (w.execEffects x es).cq, c ∈ w.cq ∨ c = ⟨x, -ecanceled⟩
  | [], _, _, hc => Or.inl hc
  | e :: es, w, c, hc => by
    rcases execEffects_cq es (w.execEffect x e) c hc with hc | hc
    · cases e with
      | removeSocketFd =>
        unfold Worker.execEffect at hc
        dsimp only at hc
        split at hc
        · exact Or.inl hc
        · simpa using hc
      | _ => exact Or.inl hc
    · exact Or.inr hc

theorem timedExecEffects_stopFlag (es : List Effect) (w : TimedWorker)
    (h : w.stopFlag = true) : (w.execEffects t x es).stopFlag = true := by
  induction es generalizing w with
  | nil => exact h
  | cons e es ih =>
    refine ih (w.execEffect t x e) ?_
    cases e with
    | joinHead l => cases t <;> first | rfl | exact h
    | _ => exact h

theorem stepped_worker (w : TimedWorker) : (w.stepped t x c es).worker
    = (w.worker.setSession x c.session).execEffects x es := (timed_execEffects es _).1

theorem stepped_kern (w : TimedWorker) :
    (w.stepped t x c es).worker.kern x = (w.worker.kern x).execs es := by
  rw [stepped_worker]
  exact kern_execEffects_self es _

theorem stepped_onlyAt {e : List Effect} (w : TimedWorker) : OnlyAt x w (w.stepped t x c e) where
  cell y hy := (timedStepped_of_ne hy).1
  kern y hy := by
    rw [stepped_worker]
    exact kern_execEffects_of_ne hy e _
  news := TimedWorker.stepped_newEnds w
  stop h := timedExecEffects_stopFlag e (w.setCell x c) h
  cq := by
    rw [stepped_worker]
    exact execEffects_cq e _

theorem isFamily_stepped {e : List Effect} (h : IsFamily w.worker.links w.worker.ends m)
    (hat : ListedAt m x p) (hmoves : p.moves e = some q) :
    IsFamily (w.stepped t x c e).worker.links (w.stepped t x c e).worker.ends
      (rewriteLists x m e) ∧ ListedAt (rewriteLists x m e) x q := by
  rw [stepped_worker]
  exact isFamily_execEffects (w := w.worker.setSession x c.session) h hat hmoves

theorem stepped_session (w : TimedWorker) : (w.stepped t x c es).session x = c.session :=
  congrArg SessionCell.session timedStepped_cell_self

theorem timedTakeAction_postActions (hm : (w.session x).magic = true)
    (h : (w.cell x).ready.step a = .ok (c, es)) (hop : wantsSwitch c.session.postOp = false) :
    w.takeAction t x a = (w.stepped t x c es).postActions t x := by
  have hdispatch : w.dispatch t x a = .ok (w.stepped t x c es) := by
    unfold TimedWorker.dispatch
    rw [h]
    rfl
  unfold TimedWorker.takeAction
  rw [if_pos hm, hdispatch, ok_bind, stepped_session, hop]
  rfl

theorem timedTakeAction_return (hm : (w.session x).magic = true)
    (h : (w.cell x).ready.step a = .ok (c, es)) (hop : c.session.postOp = popReturnValue) :
    w.takeAction t x a = .ok (c.session.r, w.stepped t x c es) := by
  rw [timedTakeAction_postActions hm h (by rw [hop]; rfl)]
  unfold TimedWorker.postActions
  rw [stepped_session, hop]
  rfl

/-- 親も子も無い session を解放した後。 -/
def TimedWorker.freed (w : TimedWorker) (x : Nat) : TimedWorker :=
  { w with worker := w.worker.setSession x { w.session x with magic := false } }

theorem freed_onlyAt (w : TimedWorker) (x : Nat) : OnlyAt x w (w.freed x) where
  cell y hy := by
    unfold TimedWorker.freed TimedWorker.cell Worker.setSession
    simp [hy]
  kern _ _ := rfl
  news := rfl
  stop h := h
  cq _ hc := Or.inl hc

theorem freed_magic (w : TimedWorker) (x : Nat) : ((w.freed x).session x).magic = false := by
  unfold TimedWorker.freed TimedWorker.session
  simp

theorem esqUnhookChildSession_lone {w : Worker} (h : (w.session x).Lone) :
    esqUnhookChildSession w x = w := by
  obtain ⟨-, hc, hf⟩ := h
  have hsame : { w.session x with childSessionList := [], finishedChildSessionList := [] }
      = w.session x := by
    cases hs : w.session x
    simp_all
  unfold esqUnhookChildSession
  simp only [hc, hf, List.foldl_nil, hsame]
  simp [Worker.setSession]

theorem timedFreeSession_lone (h : (w.session x).Lone) :
    w.freeSession t x = .ok (w.freed x) := by
  have hunhook : esqUnhookChildSession w.worker x = w.worker := esqUnhookChildSession_lone h
  unfold TimedWorker.freeSession
  dsimp only
  rw [hunhook]
  exact if_neg (by rw [show _ = false from h.1]; decide)

theorem timedTakeAction_free (hm : (w.session x).magic = true)
    (h : (w.cell x).ready.step a = .ok (c, es)) (hop : c.session.postOp = popFreeSession)
    (hlone : c.session.Lone) :
    w.takeAction t x a = .ok (esqOk, (w.stepped t x c es).freed x) := by
  have hfree : (w.stepped t x c es).freeSession t x
      = .ok ((w.stepped t x c es).freed x) :=
    timedFreeSession_lone (by rw [stepped_session]; exact hlone)
  rw [timedTakeAction_postActions hm h (by rw [hop]; rfl)]
  unfold TimedWorker.postActions
  rw [stepped_session, hop]
  exact bind_eq_ok.mpr ⟨_, hfree, rfl⟩

end

/-! ## stop flag を見た worker -/

/-- stop flag が立ち、`S` の session は、callback の間で list に止まっているか、解放されている。 -/
structure Held (S : Finset Nat) (w : TimedWorker) (m : WorkerList → List Nat) : Prop where
  lists : IsFamily w.worker.links w.worker.ends m
  parked : ∀ l, ∀ x ∈ m l, (w.cell x).Parked (w.worker.kern x) l
  /-- 積まれている completion は、取り消しの完了だけである -/
  cancels : ∀ c ∈ w.worker.cq, c.res = -ecanceled ∧ ∃ l, c.session ∈ m l
  news : ∀ k, (w.worker.newEnds k).head = none
  stop : w.stopFlag = true
  within : ∀ l, ∀ x ∈ m l, x ∈ S
  gone : ∀ x ∈ S, (∀ l, x ∉ m l) → (w.session x).magic = false

/-- `S` の session が終わるまでに動く回数の和。 -/
def TimedWorker.potential (S : Finset Nat) (w : TimedWorker) : Nat := ∑ x ∈ S, (w.cell x).rank

/-- hash lock を求めた session が、active list でない list にいる。 -/
def HashWaiting (w : TimedWorker) (m : WorkerList → List Nat) : Prop :=
  ∃ l, l ≠ .active ∧ ∃ x ∈ m l, (w.session x).sessionType = .waitForHashLock

section

variable {S : Finset Nat} {w w' : TimedWorker} {m m' : WorkerList → List Nat} {x : Nat}
  {l : WorkerList} {t : Option TimeVal}

theorem Held.replace (h : Held S w m) (ho : OnlyAt x w w') (hx : x ∈ S)
    (hlists : IsFamily w'.worker.links w'.worker.ends m')
    (hm : ∀ y, y ≠ x → ∀ l, y ∈ m' l ↔ y ∈ m l)
    (hnew : ∀ l, x ∈ m' l → (w'.cell x).Parked (w'.worker.kern x) l)
    (hcq : ∀ c ∈ w'.worker.cq, c.session = x → ∃ l, x ∈ m' l)
    (hgone : (∀ l, x ∉ m' l) → (w'.session x).magic = false) : Held S w' m' where
  lists := hlists
  parked l y hy := by
    by_cases hyx : y = x
    · subst hyx
      exact hnew l hy
    · rw [ho.cell y hyx, ho.kern y hyx]
      exact h.parked l y ((hm y hyx l).mp hy)
  cancels c hc := by
    refine ⟨?_, ?_⟩
    · rcases ho.cq c hc with hc | rfl
      · exact (h.cancels c hc).1
      · rfl
    · by_cases hcx : c.session = x
      · rw [hcx]
        exact hcq c hc hcx
      · rcases ho.cq c hc with hc | rfl
        · obtain ⟨l, hl⟩ := (h.cancels c hc).2
          exact ⟨l, (hm _ hcx l).mpr hl⟩
        · exact absurd rfl hcx
  news k := by rw [ho.news]; exact h.news k
  stop := ho.stop h.stop
  within l y hy := by
    by_cases hyx : y = x
    · exact hyx ▸ hx
    · exact h.within l y ((hm y hyx l).mp hy)
  gone y hy hnone := by
    by_cases hyx : y = x
    · subst hyx
      exact hgone hnone
    · have hsess : w'.session y = w.session y := congrArg SessionCell.session (ho.cell y hyx)
      rw [hsess]
      exact h.gone y hy fun l hl => hnone l ((hm y hyx l).mpr hl)

theorem OnlyAt.potential_lt (ho : OnlyAt x w w') (hx : x ∈ S)
    (hr : (w'.cell x).rank < (w.cell x).rank) : w'.potential S < w.potential S := by
  refine Finset.sum_lt_sum (fun y _ => ?_) ⟨x, hx, hr⟩
  by_cases hyx : y = x
  · exact hyx ▸ hr.le
  · rw [ho.cell y hyx]

theorem OnlyAt.potential_eq (ho : OnlyAt x w w') (hr : (w'.cell x).rank = (w.cell x).rank) :
    w'.potential S = w.potential S := by
  refine Finset.sum_congr rfl fun y _ => ?_
  by_cases hyx : y = x
  · exact hyx ▸ hr
  · rw [ho.cell y hyx]

theorem OnlyAt.hashWaiting_iff (ho : OnlyAt x w w') (hm : ∀ y, y ≠ x → ∀ l, y ∈ m' l ↔ y ∈ m l)
    (hx : ∀ l, l ≠ .active →
      (x ∈ m' l ∧ (w'.session x).sessionType = .waitForHashLock ↔
        x ∈ m l ∧ (w.session x).sessionType = .waitForHashLock)) :
    HashWaiting w' m' ↔ HashWaiting w m := by
  refine exists_congr fun l => and_congr_right fun hl => exists_congr fun y => ?_
  by_cases hyx : y = x
  · subst hyx
    exact hx l hl
  · have hsess : w'.session y = w.session y := congrArg SessionCell.session (ho.cell y hyx)
    rw [hm y hyx l, hsess]

theorem mem_notices {w : Worker} {c : Cqe} (hc : c ∈ w.cq) (hres : c.res = -ecanceled) :
    .removed ∈ (w.kern c.session).notices := by
  unfold Worker.kern
  refine List.mem_filterMap.mpr ⟨c, List.mem_filter.mpr ⟨hc, by simp⟩, ?_⟩
  obtain ⟨y, res⟩ := c
  subst hres
  exact notice_canceled y

theorem Held.removing_of_mem (h : Held S w m) {c : Cqe} (hc : c ∈ w.worker.cq)
    (hl : c.session ∈ m l) : (w.cell c.session).removing = true := by
  have hn := (h.parked l _ hl).notices
  by_contra hr
  rw [Bool.not_eq_true] at hr
  rw [hr] at hn
  have hmem := mem_notices hc (h.cancels c hc).1
  rw [hn] at hmem
  cases hmem

/-- exit を一つの session に知らせた結果。 -/
structure ExitTaken (S : Finset Nat) (w w' : TimedWorker) (m m' : WorkerList → List Nat)
    (l : WorkerList) (x : Nat) : Prop where
  held : Held S w' m'
  onlyAt : OnlyAt x w w'
  others : ∀ y, y ≠ x → ∀ l', y ∈ m' l' ↔ y ∈ m l'
  suffix : ∀ rest, x ∉ rest → rest <:+ m l → rest <:+ m' l
  told : (w'.cell x).Told
  rank : (w.cell x).waiting = false → (w'.cell x).rank = (w.cell x).rank
  hashWaiting : HashWaiting w' m' ↔ HashWaiting w m

theorem Held.notifyExit (h : Held S w m) (hx : x ∈ m l) (os : Int) :
    ∃ w' m', w.act t x { action := .notifyExit, os } = .ok w' ∧ ExitTaken S w w' m m' l x := by
  have hpark := h.parked l x hx
  obtain ⟨c, es, hstep, htook⟩ := hpark.notifyExit os
  obtain ⟨l', hpark', hmoves⟩ := htook.moves
  obtain ⟨hfam, hmem⟩ := isFamily_stepped (t := t) (c := c) h.lists (p := .list l) hx hmoves
  have hcell : (w.stepped t x c es).cell x = c := timedStepped_cell_self
  have honly : OnlyAt x w (w.stepped t x c es) := stepped_onlyAt w
  have hothers : ∀ y, y ≠ x → ∀ l', y ∈ rewriteLists x m es l' ↔ y ∈ m l' :=
    fun y hy l' => mem_rewriteLists hy es m l'
  have hlist : ∀ l₁, x ∈ rewriteLists x m es l₁ → l₁ = l' := fun l₁ hl₁ => hfam.disjoint hl₁ hmem
  refine ⟨w.stepped t x c es, rewriteLists x m es, ?_, ?_, honly, hothers, ?_, ?_, ?_, ?_⟩
  · exact bind_eq_ok.mpr ⟨_, timedTakeAction_stay hpark.magic hstep htook.postOp, rfl⟩
  · refine h.replace honly (h.within l x hx) hfam hothers (fun l₁ hl₁ => ?_)
      (fun _ _ _ => ⟨l', hmem⟩) (fun hnone => absurd hmem (hnone l'))
    rw [hlist l₁ hl₁, hcell, stepped_kern]
    exact hpark'
  · exact fun rest hrest hsuf => rewriteLists_suffix hrest htook.notTail hsuf
  · rw [hcell]
    exact htook.told
  · rw [hcell]
    exact htook.rank
  · refine honly.hashWaiting_iff hothers fun l₁ _ => ?_
    rw [stepped_session, htook.sessionType]
    refine and_congr_left fun ht => ?_
    -- hash lock の session は list を移らない
    rw [htook.hash ht]
    rfl

theorem Held.length_le (h : Held S w m) (l : WorkerList) : (m l).length ≤ S.card := by
  rw [← List.toFinset_card_of_nodup (h.lists.dll l).nodup]
  exact Finset.card_le_card fun x hx => h.within l x (List.mem_toFinset.mp hx)

end

/-! ## exit を知らせる -/

/-- list `l` を辿っている途中。`rest` と、`later` の list の session には、まだ知らせていない。 -/
structure Telling (S : Finset Nat) (w₀ : TimedWorker) (m₀ : WorkerList → List Nat)
    (l : WorkerList) (later : List WorkerList) (w : TimedWorker) (m : WorkerList → List Nat)
    (rest : List Nat) : Prop where
  held : Held S w m
  suffix : rest <:+ m l
  told : ∀ k, ∀ x ∈ m k, (w.cell x).Told ∨ (k = l ∧ x ∈ rest) ∨ k ∈ later
  hashWaiting : HashWaiting w m ↔ HashWaiting w₀ m₀
  /-- 誰も待っていなければ、残りの回数は変わらない -/
  calm : (∀ k, ∀ x ∈ m₀ k, (w₀.cell x).waiting = false) →
    (∀ k, ∀ x ∈ m k, (w.cell x).waiting = false) ∧ w.potential S = w₀.potential S

section

variable {S : Finset Nat} {w w' w₀ : TimedWorker} {m m' m₀ : WorkerList → List Nat} {x : Nat}
  {l : WorkerList} {later : List WorkerList} {rest : List Nat} {env : LoopEnv} {e : ExitWalk}
  {fuel : Nat}

theorem Telling.advance (h : Telling S w₀ m₀ l later e.w m (x :: rest)) :
    e.w.worker.links.next x = rest.head? ∧
      ∃ e', e.notifyExit env x = .ok e' ∧ ∃ m', Telling S w₀ m₀ l later e'.w m' rest := by
  obtain ⟨front, hfront⟩ := h.suffix
  have hdll := h.held.lists.dll l
  rw [← hfront] at hdll
  have hx : x ∈ m l := h.suffix.mem List.mem_cons_self
  have hrest : x ∉ rest := (List.nodup_cons.mp hdll.nodup.of_append_right).1
  obtain ⟨w', m', hact, htaken⟩ := h.held.notifyExit (t := env.exitClock e.told) hx
    (env.exitOs e.told)
  refine ⟨hdll.1.next_eq, _, bind_eq_ok.mpr ⟨w', hact, rfl⟩, m', htaken.held,
    htaken.suffix rest hrest ((List.suffix_cons x rest).trans h.suffix), fun k y hy => ?_,
    htaken.hashWaiting.trans h.hashWaiting, fun hcalm => ?_⟩
  · by_cases hyx : y = x
    · exact Or.inl (hyx ▸ htaken.told)
    · rw [htaken.onlyAt.cell y hyx]
      rcases h.told k y ((htaken.others y hyx k).mp hy) with ht | ⟨hk, hmem⟩ | hk
      · exact Or.inl ht
      · exact Or.inr (Or.inl ⟨hk, (List.mem_cons.mp hmem).resolve_left hyx⟩)
      · exact Or.inr (Or.inr hk)
  · obtain ⟨hall, hpot⟩ := h.calm hcalm
    refine ⟨fun k y hy => ?_, (htaken.onlyAt.potential_eq (htaken.rank (hall l x hx))).trans hpot⟩
    by_cases hyx : y = x
    · exact hyx ▸ htaken.told.awake
    · rw [htaken.onlyAt.cell y hyx]
      exact hall k y ((htaken.others y hyx k).mp hy)

theorem Telling.overList (h : Telling S w₀ m₀ l later e.w m (m l)) (hfuel : S.card ≤ fuel) :
    ∃ e', e.overList env fuel l = .ok e' ∧ ∃ m', Telling S w₀ m₀ l later e'.w m' [] := by
  unfold ExitWalk.overList
  rw [(h.held.lists.dll l).1.head_eq]
  exact walkSaved_eq_ok Fault.endless
    (P := fun (e : ExitWalk) rest => ∃ m, Telling S w₀ m₀ l later e.w m rest)
    (fun e x rest ⟨_, h⟩ => h.advance) ⟨m, h⟩ ((h.held.length_le l).trans hfuel)

theorem telling_lists (env : LoopEnv) (hfuel : S.card ≤ fuel) :
    ∀ (ls : List WorkerList) (e : ExitWalk) (m : WorkerList → List Nat) (l : WorkerList),
    Telling S w₀ m₀ l ls e.w m [] →
    ∃ e', ls.foldlM (ExitWalk.overList env fuel) e = .ok e' ∧
      ∃ m' l, Telling S w₀ m₀ l [] e'.w m' []
  | [], e, m, l, h => ⟨e, rfl, m, l, h⟩
  | l :: ls, e, m, _, h => by
    have hstart : Telling S w₀ m₀ l ls e.w m (m l) := by
      refine ⟨h.held, List.suffix_refl _, fun k x hx => ?_, h.hashWaiting, h.calm⟩
      rcases h.told k x hx with ht | ⟨-, hmem⟩ | hk
      · exact Or.inl ht
      · cases hmem
      · rcases List.mem_cons.mp hk with rfl | hk
        · exact Or.inr (Or.inl ⟨rfl, hx⟩)
        · exact Or.inr (Or.inr hk)
    obtain ⟨e₁, he₁, m₁, h₁⟩ := hstart.overList hfuel
    obtain ⟨e', he', m', hlast⟩ := telling_lists env hfuel ls e₁ m₁ l h₁
    refine ⟨e', ?_, m', hlast⟩
    rw [List.foldlM_cons, he₁]
    exact he'

/-- exit を受けた session だけがいる。 -/
structure Leaving (S : Finset Nat) (w : TimedWorker) (m : WorkerList → List Nat) : Prop extends
    Held S w m where
  told : ∀ k, ∀ x ∈ m k, (w.cell x).Told

/-- **六つの list を辿り終えると、どの session も exit を受けて、待つのをやめている。** -/
theorem Held.notifyExitToAllSessions (env : LoopEnv) (h : Held S w m) (hfuel : S.card ≤ fuel) :
    ∃ w', w.notifyExitToAllSessions env fuel = .ok w' ∧ ∃ m', Leaving S w' m' ∧
      (HashWaiting w' m' ↔ HashWaiting w m) ∧
      ((∀ k, ∀ x ∈ m k, (w.cell x).waiting = false) → w'.potential S = w.potential S) := by
  have hstart : Telling S w m .active exitOrder w m [] :=
    ⟨h, List.nil_suffix, fun k _ _ => Or.inr (Or.inr (mem_exitOrder k)), Iff.rfl,
      fun hcalm => ⟨hcalm, rfl⟩⟩
  obtain ⟨e', he', m', l, hlast⟩ := telling_lists env hfuel exitOrder ⟨w, 0⟩ m .active hstart
  refine ⟨e'.w, bind_eq_ok.mpr ⟨e', he', rfl⟩, m', ⟨hlast.held, fun k x hx => ?_⟩,
    hlast.hashWaiting, fun hcalm => (hlast.calm hcalm).2⟩
  rcases hlast.told k x hx with ht | ⟨-, hmem⟩ | hk
  · exact ht
  · cases hmem
  · cases hk

/-! ## 一回り -/

/-- 外から届くのは、`esq_hash_lock_release_all` が wake-up list に繋ぐ `S` の session だけである。 -/
structure LoopEnv.Quiet (S : Finset Nat) (env : LoopEnv) : Prop where
  woken : ∀ x ∈ env.woken, x ∈ S
  arrivals : env.arrivals = []
  stopSession : env.stopSession = false

/-- exit を受けた callback は session を終わらせる。multi shot は `esq_session_remove_req` を呼ぶ。 -/
structure LoopEnv.Cooperates (env : LoopEnv) : Prop where
  calls : ∀ w x, (w.session x).exiting = true → (w.session x).sessionType ≠ .multiSocketCb →
    env.calls w x = []
  remove : ∀ w x, (w.session x).exiting = true → (w.session x).sessionType = .multiSocketCb →
    ∃ os clock, env.calls w x = [.act x { action := .removeFd, os } clock]
  isEnd : ∀ w x, (w.session x).exiting = true → env.isEnd w x = true

/-- 一つの session が動いた結果。 -/
structure Progress (S : Finset Nat) (w w' : TimedWorker) (m m' : WorkerList → List Nat) : Prop where
  held : Held S w' m'
  told : (∀ k, ∀ x ∈ m k, (w.cell x).Told) → ∀ k, ∀ x ∈ m' k, (w'.cell x).Told
  potential : w'.potential S < w.potential S
  hashWaiting : HashWaiting w' m' ↔ HashWaiting w m

theorem SessionCell.rank_pos {c : SessionCell} (h : c.session.magic = true) : 0 < c.rank := by
  unfold SessionCell.rank
  rw [if_pos h]
  split <;> try split
  all_goals decide

theorem freed_rank (w : TimedWorker) (x : Nat) : ((w.freed x).cell x).rank = 0 := by
  have h : ((w.freed x).cell x).session.magic = false := freed_magic w x
  unfold SessionCell.rank
  rw [if_neg (by rw [h]; decide)]

theorem Held.progress (h : Held S w m) (hx : x ∈ m l) (hheld : Held S w' m') (ho : OnlyAt x w w')
    (hothers : ∀ y, y ≠ x → ∀ k, y ∈ m' k ↔ y ∈ m k)
    (hrank : (w'.cell x).rank < (w.cell x).rank)
    (htold : (w.cell x).Told → ∀ k, x ∈ m' k → (w'.cell x).Told)
    (hhash : l = .active ∨ (w.session x).sessionType ≠ .waitForHashLock)
    (hhash' : ∀ k, k ≠ .active → x ∈ m' k → (w'.session x).sessionType ≠ .waitForHashLock) :
    Progress S w w' m m' where
  held := hheld
  told hall k y hy := by
    by_cases hyx : y = x
    · subst hyx
      exact htold (hall l y hx) k hy
    · rw [ho.cell y hyx]
      exact hall k y ((hothers y hyx k).mp hy)
  potential := ho.potential_lt (h.within l x hx) hrank
  hashWaiting := by
    refine ho.hashWaiting_iff hothers fun k hk => ?_
    refine ⟨fun ⟨hxk, ht⟩ => absurd ht (hhash' k hk hxk), fun ⟨hxk, ht⟩ => ?_⟩
    obtain rfl : k = l := h.lists.disjoint hxk hx
    exact absurd ht (hhash.resolve_left hk)

theorem Held.free {v : TimedWorker} (h : Held S w m) (hx : x ∈ m l) (ho : OnlyAt x w v)
    (hlists : IsFamily v.worker.links v.worker.ends m')
    (hothers : ∀ y, y ≠ x → ∀ k, y ∈ m' k ↔ y ∈ m k) (hnone : ∀ k, x ∉ m' k)
    (hnotices : (v.worker.kern x).notices = [])
    (hhash : l = .active ∨ (w.session x).sessionType ≠ .waitForHashLock) :
    Progress S w (v.freed x) m m' := by
  have honly := ho.trans (freed_onlyAt v x)
  refine h.progress hx (h.replace honly (h.within l x hx) hlists hothers
    (fun k hk => absurd hk (hnone k)) (fun c hc hcx => ?_) fun _ => freed_magic v x) honly hothers
    ?_ (fun _ k hk => absurd hk (hnone k)) hhash fun k _ hk => absurd hk (hnone k)
  · have hres : c.res = -ecanceled := by
      rcases honly.cq c hc with hc | rfl
      · exact (h.cancels c hc).1
      · rfl
    have hmem := mem_notices (w := v.worker) hc hres
    rw [hcx, hnotices] at hmem
    cases hmem
  · rw [freed_rank]
    exact SessionCell.rank_pos (h.parked l x hx).magic

theorem kern_pop {w : Worker} {c : Cqe} {cq : List Cqe} (h : w.cq = c :: cq) (y : Nat) :
    (w.kern y).notices = (if c.session = y then c.notice.toList else []) ++
      (({ w with cq } : Worker).kern y).notices := by
  unfold Worker.kern
  rw [h]
  by_cases hc : c.session = y
  · cases hn : c.notice <;> simp [hc, hn]
  · simp [hc]

/-- **積まれていた取り消しの完了を一つ受ける。** -/
theorem Held.receiveFdEvent (env : LoopEnv) (h : Held S w m) {c : Cqe} {cq : List Cqe}
    (hcq : w.worker.cq = c :: cq) :
    ∃ w' m', TimedWorker.receiveFdEvent env { w with worker := { w.worker with cq } } c = .ok w' ∧
      Progress S w w' m m' := by
  obtain ⟨hres, l, hx⟩ := h.cancels c (hcq ▸ List.mem_cons_self)
  have hrem : (w.cell c.session).removing = true :=
    h.removing_of_mem (hcq ▸ List.mem_cons_self) hx
  obtain ⟨x, res⟩ := c
  dsimp only at hres hx hrem
  subst hres
  have hpark := h.parked l x hx
  have hno : l = .ofNoTime := hpark.list_of_removing hrem
  generalize hv : ({ w with worker := { w.worker with cq } } : TimedWorker) = v
  have hcell : ∀ y, v.cell y = w.cell y := fun y => by rw [← hv]; rfl
  have hmagic : (v.session x).magic = true := by rw [← hv]; exact hpark.magic
  -- 取り除いた後、`x` の通知は残っていない
  have hnotices : (v.worker.kern x).notices = [] := by
    have hpop := kern_pop hcq x
    rw [hpark.notices, hrem, if_pos rfl, if_pos rfl, notice_canceled] at hpop
    rw [← hv]
    exact (List.cons.inj hpop).2.symm
  have honly : OnlyAt x w v := by
    refine ⟨fun y _ => hcell y, fun y hy => ?_, by rw [← hv], fun hs => by rw [← hv]; exact hs,
      fun d hd => Or.inl ?_⟩
    · have hpop := kern_pop hcq y
      rw [if_neg (fun he => hy he.symm), List.nil_append] at hpop
      rw [← hv]
      exact congrArg₂ Kern.mk rfl hpop.symm
    · rw [hcq]
      rw [← hv] at hd
      exact List.mem_cons_of_mem _ hd
  have hlists : IsFamily v.worker.links v.worker.ends m := by rw [← hv]; exact h.lists
  have hact : TimedWorker.receiveFdEvent env v ⟨x, -ecanceled⟩
      = v.act (env.clock 0) x { action := .notifyAioRemoved, os := env.os 0 } := by
    unfold TimedWorker.receiveFdEvent
    rw [notice_canceled]
    rfl
  rw [hact]
  cases ht : (w.cell x).session.sessionType with
  | socketCb =>
    obtain ⟨c, hstep, hop, hparked, htold, hrank⟩ := hpark.aioRemoved_single hrem ht (env.os 0)
    obtain ⟨hfam, hmem⟩ := isFamily_stepped (t := env.clock 0) (c := c) hlists (p := .list l)
      hx (e := [.left l, .joinTail .active]) (q := .list .active)
      (by simp [Place.moves, Place.move])
    have hself : (v.stepped (env.clock 0) x c [.left l, .joinTail .active]).cell x = c :=
      timedStepped_cell_self
    have hothers := fun y (hy : y ≠ x) k => mem_rewriteLists hy [.left l, .joinTail .active] m k
    have honly' := honly.trans (stepped_onlyAt (t := env.clock 0) (c := c)
      (e := [.left l, .joinTail .active]) v)
    have hlist : ∀ k, x ∈ rewriteLists x m [.left l, .joinTail .active] k → k = .active :=
      fun k hk => hfam.disjoint hk hmem
    refine ⟨_, _, bind_eq_ok.mpr ⟨_, timedTakeAction_stay hmagic (hcell x ▸ hstep) hop, rfl⟩,
      h.progress hx (h.replace honly' (h.within l x hx) hfam hothers (fun k hk => ?_)
        (fun _ _ _ => ⟨_, hmem⟩) fun hnone => absurd hmem (hnone _)) honly' hothers ?_
        (fun hw k _ => ?_) (Or.inr (by rw [show (w.session x).sessionType = _ from ht]; decide))
        fun k hk hxk => absurd (hlist k hxk) hk⟩
    · rw [hlist k hk, hself, stepped_kern]
      exact hparked _ hnotices
    · rw [hself]
      exact hrank
    · rw [hself]
      exact htold hw
  | multiSocketCb =>
    obtain ⟨c, hstep, hop, hlone⟩ := hpark.aioRemoved_multi hrem ht (env.os 0)
    obtain ⟨hfam, hnone⟩ := isFamily_stepped (t := env.clock 0) (c := c) hlists (p := .list l)
      hx (e := [.left l]) (q := .nowhere) (by simp [Place.moves, Place.move])
    refine ⟨_, _, bind_eq_ok.mpr ⟨_, timedTakeAction_free hmagic (hcell x ▸ hstep) hop hlone, rfl⟩,
      h.free hx (honly.trans (stepped_onlyAt v)) hfam (fun y hy k => mem_rewriteLists hy _ m k)
        hnone ?_ (Or.inr (by rw [show (w.session x).sessionType = _ from ht]; decide))⟩
    rw [stepped_kern]
    exact hnotices
  | _ => simp [SessionCell.removing, ht] at hrem

theorem Held.windUp {v : TimedWorker} {c : SessionCell} {a : ChassisAction} (h : Held S w m)
    (hx : x ∈ m .active) (ho : OnlyAt x w v) (hlists : IsFamily v.worker.links v.worker.ends m')
    (hothers : ∀ y, y ≠ x → ∀ k, y ∈ m' k ↔ y ∈ m k) (hnone : ∀ k, x ∉ m' k)
    (hnotices : (v.worker.kern x).notices = []) (hmagic : (v.session x).magic = true)
    (hstep : (v.cell x).ready.step a = .ok (c, [])) (hop : c.session.postOp = popFreeSession)
    (hlone : c.session.Lone) : ∃ w', v.act t x a = .ok w' ∧ Progress S w w' m m' := by
  obtain ⟨hfam, -⟩ := isFamily_stepped (t := t) (c := c) hlists (p := .nowhere) hnone
    (e := []) (q := .nowhere) rfl
  refine ⟨_, bind_eq_ok.mpr ⟨_, timedTakeAction_free hmagic hstep hop hlone, rfl⟩,
    h.free hx (ho.trans (stepped_onlyAt v)) hfam hothers hnone ?_ (Or.inl rfl)⟩
  rw [stepped_kern]
  exact hnotices

theorem SessionCell.Parked.not_removing {c : SessionCell} {k : Kern} (h : c.Parked k .active) :
    c.removing = false := by
  by_contra hr
  cases h.list_of_removing (by simpa using hr)

/-- active list の `x` を取った後。callback はまだ動いていない。 -/
structure Popped (w w₁ : TimedWorker) (m : WorkerList → List Nat) (x : Nat) : Prop where
  onlyAt : OnlyAt x w w₁
  lists : IsFamily w₁.worker.links w₁.worker.ends (rewriteLists x m [.left .active])
  nowhere : ListedAt (rewriteLists x m [.left .active]) x .nowhere
  called : (w.cell x).Called (w₁.cell x)
  kern : w₁.worker.kern x = w.worker.kern x
  notices : (w₁.worker.kern x).notices = []

theorem Held.pop (env : LoopEnv) (h : Held S w m) (hx : x ∈ m .active) (hfuel : S.card ≤ fuel) :
    ∃ w₁, esqSessionPopTheFirstActive env fuel (some x) w = .ok (some x, w₁) ∧
      Popped w w₁ m x := by
  have hpark := h.parked .active x hx
  obtain ⟨c, hstep, hcalled⟩ := hpark.executeCb (env.os 0)
  obtain ⟨hfam, hnone⟩ := isFamily_stepped (t := env.clock 0) (c := c) h.lists
    (p := .list .active) hx (e := [.left .active]) (q := .nowhere)
    (by simp [Place.moves, Place.move])
  have hkern : (w.stepped (env.clock 0) x c [.left .active]).worker.kern x = w.worker.kern x :=
    stepped_kern w
  refine ⟨_, ?_, stepped_onlyAt w, hfam, hnone, ?_, hkern, ?_⟩
  · obtain ⟨n, rfl⟩ : ∃ n, fuel = n + 1 :=
      ⟨fuel - 1, by have := Finset.card_pos.mpr ⟨x, h.within _ x hx⟩; omega⟩
    rw [esqSessionPopTheFirstActive, timedTakeAction_return hpark.magic hstep hcalled.postOp,
      ok_bind, hcalled.r]
    rfl
  · rw [timedStepped_cell_self]
    exact hcalled
  · rw [hkern, hpark.notices, hpark.not_removing]
    rfl

/-- **multi shot の callback は `esq_session_remove_req` を呼び、取り消しを待つか、すぐに終わる。** -/
theorem Popped.remove {w₁ : TimedWorker} (env : LoopEnv) (hp : Popped w w₁ m x) (h : Held S w m)
    (hx : x ∈ m .active) (ht : (w₁.session x).sessionType = .multiSocketCb) (os : Int)
    (clock : Option TimeVal) :
    ∃ v w' m', w₁.runCalls [.act x { action := .removeFd, os } clock] = .ok v ∧
      v.act (env.clock 1) x { action := .windUp, os := env.os 1, isEnd := env.isEnd v x } = .ok w' ∧
      Progress S w w' m m' := by
  have hpark := h.parked .active x hx
  have hcalled := hp.called
  have htw : (w.cell x).session.sessionType = .multiSocketCb := hcalled.sessionType.symm.trans ht
  have hmagic : (w₁.session x).magic = true := hcalled.magic.trans hpark.magic
  have hothers := fun y (hy : y ≠ x) k => mem_rewriteLists hy [.left .active] m k
  obtain ⟨c₁, c₂, es, hstep₁, hop₁, hm₁, hstep₂, hwith⟩ := SessionCell.removeFd_withdraws
    (k := w₁.worker.kern x) hcalled.running ht hmagic (by
      rw [hcalled.cb]
      exact hpark.callable.resolve_left (by rw [htw]; decide)) hcalled.lone (fun hfd => by
      rw [hp.kern]
      exact hpark.armed (hpark.polls_of_multi htw (hcalled.fd ▸ hfd))) hp.notices os (env.os 1)
  have hv : w₁.runCalls [.act x { action := .removeFd, os } clock]
      = .ok (w₁.stepped clock x c₁ es) :=
    bind_eq_ok.mpr ⟨_, bind_eq_ok.mpr ⟨_, timedTakeAction_stay hmagic hstep₁ hop₁, rfl⟩, rfl⟩
  have honly₁ := hp.onlyAt.trans (stepped_onlyAt (t := clock) (c := c₁) (e := es) w₁)
  have hmagic₁ : ((w₁.stepped clock x c₁ es).session x).magic = true := by
    rw [stepped_session]
    exact hm₁
  have hwind : ((w₁.stepped clock x c₁ es).cell x).ready.step
      { action := .windUp, os := env.os 1, isEnd := env.isEnd (w₁.stepped clock x c₁ es) x }
      = .ok (c₂, []) := by
    rw [timedStepped_cell_self]
    exact hstep₂ _
  cases hwith with
  | ended hop hlone =>
    obtain ⟨hfam₁, -⟩ := isFamily_stepped (t := clock) (c := c₁) hp.lists (p := .nowhere)
      hp.nowhere (e := []) (q := .nowhere) rfl
    obtain ⟨w', hw', hprog⟩ := h.windUp (t := env.clock 1) hx honly₁ hfam₁ hothers hp.nowhere
      (by rw [stepped_kern]; exact hp.notices) hmagic₁ hwind hop hlone
    exact ⟨_, w', _, hv, hw', hprog⟩
  | removing hop ht₂ hrank htold hparked =>
    have hmoves : Place.moves .nowhere [.removeSocketFd, .joinHead .ofNoTime]
        = some (.list .ofNoTime) := rfl
    obtain ⟨hfam₁, hmem₁⟩ := isFamily_stepped (t := clock) (c := c₁) hp.lists (p := .nowhere)
      hp.nowhere hmoves
    obtain ⟨hfam₂, hmem₂⟩ := isFamily_stepped (t := env.clock 1) (c := c₂) hfam₁
      (p := .list .ofNoTime) hmem₁ (e := []) (q := .list .ofNoTime) rfl
    have hcell₂ : ((w₁.stepped clock x c₁ [.removeSocketFd, .joinHead .ofNoTime]).stepped
        (env.clock 1) x c₂ []).cell x = c₂ := timedStepped_cell_self
    have honly₂ := honly₁.trans (stepped_onlyAt (t := env.clock 1) (c := c₂) (e := [])
      (w₁.stepped clock x c₁ [.removeSocketFd, .joinHead .ofNoTime]))
    have hothers₂ := fun y (hy : y ≠ x) k =>
      (mem_rewriteLists hy [.removeSocketFd, .joinHead .ofNoTime] _ k).trans (hothers y hy k)
    refine ⟨_, _, _, hv, bind_eq_ok.mpr ⟨_, timedTakeAction_stay hmagic₁ hwind hop, rfl⟩,
      h.progress hx (h.replace honly₂ (h.within _ x hx) hfam₂ hothers₂ (fun k hk => ?_)
        (fun _ _ _ => ⟨_, hmem₂⟩) fun hnone => absurd hmem₂ (hnone _)) honly₂ hothers₂ ?_
        (fun _ _ _ => ?_) (Or.inl rfl) fun k _ _ => ?_⟩
    · rw [hfam₂.disjoint hk hmem₂, hcell₂, stepped_kern, stepped_kern]
      exact hparked
    · rw [hcell₂, hrank]
      simp [SessionCell.rank, htw, hpark.not_removing, hpark.magic]
    · rw [hcell₂]
      exact htold
    · exact fun ht' => absurd (ht₂.symm.trans
        ((congrArg (fun c => c.session.sessionType) hcell₂).symm.trans ht')) (by decide)

/-- **active list の先頭の session を動かす。** -/
theorem Held.execute (h : Held S w m) (hx : x ∈ m .active) (hexit : (w.session x).exiting = true)
    (henv : env.Cooperates) (hfuel : S.card ≤ fuel) :
    ∃ w₁ w' m', esqSessionPopTheFirstActive env fuel (some x) w = .ok (some x, w₁) ∧
      esqWorkerExecuteSession env w₁ x = .ok w' ∧ Progress S w w' m m' := by
  obtain ⟨w₁, hpop, hp⟩ := h.pop env hx hfuel
  have hpark := h.parked .active x hx
  have hcalled := hp.called
  have hexit₁ : (w₁.session x).exiting = true := hcalled.exiting.trans hexit
  have hcallable : (w₁.session x).sessionType = .mco ∨ (w₁.session x).cb ≠ 0 :=
    hpark.callable.imp hcalled.sessionType.trans fun hcb => hcalled.cb ▸ hcb
  have hrun : ∀ {v w' : TimedWorker} {calls}, env.calls w₁ x = calls → w₁.runCalls calls = .ok v →
      v.act (env.clock 1) x { action := .windUp, os := env.os 1, isEnd := env.isEnd v x }
        = .ok w' → esqWorkerExecuteSession env w₁ x = .ok w' := by
    rintro v w' _ rfl hv hw'
    unfold esqWorkerExecuteSession
    rw [if_pos hcallable, hv, ok_bind]
    exact hw'
  by_cases ht : (w₁.session x).sessionType = .multiSocketCb
  · obtain ⟨os, clock, hcalls⟩ := henv.remove w₁ x hexit₁ ht
    obtain ⟨v, w', m', hv, hw', hprog⟩ := hp.remove env h hx ht os clock
    exact ⟨w₁, w', m', hpop, hrun hcalls hv hw', hprog⟩
  · obtain ⟨c', hstep, hop, hlone⟩ := SessionCell.windUp_ends hcalled.running ht hcalled.lone
      (env.os 1)
    obtain ⟨w', hw', hprog⟩ := h.windUp (t := env.clock 1) hx hp.onlyAt hp.lists
      (fun y hy k => mem_rewriteLists hy [.left .active] m k) hp.nowhere hp.notices
      (hcalled.magic.trans hpark.magic) hstep hop hlone
    rw [← henv.isEnd w₁ x hexit₁] at hw'
    exact ⟨w₁, w', _, hpop, hrun (henv.calls w₁ x hexit₁ ht) rfl hw', hprog⟩

theorem Held.resting (h : Held S w m) : Resting w m where
  lists := h.lists
  magic l x hx := (h.parked l x hx).magic
  rests l x hx := (h.parked l x hx).rests

theorem SessionCell.Parked.spent {c : SessionCell} {k : Kern} (h : c.Parked k l)
    (hw : c.waiting = false) (hr : c.removing = false) (hl : l ≠ .active) : c.spent = true := by
  cases h.rests with
  | plain hrest _ =>
    cases hrest with
    | singleActive => exact absurd rfl hl
    | multiActive => exact absurd rfl hl
    | mcoActive => exact absurd rfl hl
    | _ ht hl' => simp_all [SessionCell.waiting, SessionCell.removing]
  | hashWindedUp ht _ hwait => simp [SessionCell.waiting, ht, hwait] at hw
  | hashActive => exact absurd rfl hl
  | hashLeftBehind ht _ hwait => simp [SessionCell.spent, ht, hwait]

theorem Resting.checkEventsTiming2_spent (os : Nat → Int) (clock : Nat → Option TimeVal)
    (now : TimeVal) (h : Resting w m) (hspent : ∀ k, ∀ x ∈ m k, w.spent x = true)
    (hfuel : (m l).length ≤ fuel) :
    checkEventsTiming2 os clock now fuel ⟨w, []⟩ l = .ok ⟨w, []⟩ ∨
      ∃ e, checkEventsTiming2 os clock now fuel ⟨w, []⟩ l = .error e ∧ ∃ k x, x ∈ m k := by
  have hvisit : ∀ (k : Tick) x rest, k = ⟨w, []⟩ ∧ x :: rest <:+ m l →
      k.w.worker.links.next x = rest.head? ∧
        ((∃ t, k.check os clock now x = .ok t ∧ t = ⟨w, []⟩ ∧ rest <:+ m l) ∨
          ∃ e, k.check os clock now x = .error e ∧ ∃ k x, x ∈ m k) := by
    rintro k x rest ⟨rfl, hsuf⟩
    have hx : x ∈ m l := hsuf.mem List.mem_cons_self
    obtain ⟨front, hfront⟩ := hsuf
    have hdll := h.lists.dll l
    rw [← hfront] at hdll
    refine ⟨hdll.1.next_eq, ?_⟩
    unfold Tick.check
    split
    · dsimp only
      rw [notifyTimeout_of_spent _ _ h hx (hspent l x hx)]
      exact Or.inr ⟨_, rfl, l, x, hx⟩
    · exact Or.inl ⟨_, rfl, rfl, (List.suffix_cons x rest).trans ⟨front, hfront⟩⟩
  have hwalk := walkSaved_cases (Fault.endless, [])
    (P := fun (k : Tick) rest => k = ⟨w, []⟩ ∧ rest <:+ m l) (Q := fun _ => ∃ k x, x ∈ m k)
    hvisit ⟨rfl, List.suffix_refl _⟩ hfuel
  unfold checkEventsTiming2
  rw [(h.lists.dll l).1.head_eq]
  rcases hwalk with ⟨t, ht, rfl, -⟩ | herror
  · exact Or.inl ht
  · exact Or.inr herror

theorem Resting.timing_spent (os : Nat → Int) (clock : Nat → Option TimeVal) (now : TimeVal)
    (h : Resting w m) (hspent : ∀ k, ∀ x ∈ m k, w.spent x = true)
    (hfuel : ∀ k, (m k).length ≤ fuel) : ∀ ls : List WorkerList,
    ls.foldlM (checkEventsTiming2 os clock now fuel) ⟨w, []⟩ = .ok ⟨w, []⟩ ∨
      ∃ e, ls.foldlM (checkEventsTiming2 os clock now fuel) ⟨w, []⟩ = .error e ∧ ∃ k x, x ∈ m k
  | [] => Or.inl rfl
  | l :: ls => by
    rw [List.foldlM_cons]
    rcases h.checkEventsTiming2_spent os clock now hspent (hfuel l) with hl | ⟨e, hl, hsome⟩
    · rw [hl]
      exact h.timing_spent os clock now hspent hfuel ls
    · rw [hl]
      exact Or.inr ⟨e, rfl, hsome⟩

theorem Leaving.polling (h : Leaving S w m) (n : Int) : Leaving S { w with eventWaitMax := n } m :=
  ⟨⟨h.lists, h.parked, h.cancels, h.news, h.stop, h.within, h.gone⟩, h.told⟩

/-- 残っているのが hash lock の session だけなら、待っても何も起きないか、process が終わる。 -/
theorem Leaving.waitCqe_idle (h : Leaving S w m) (hactive : m .active = [])
    (hcq : w.worker.cq = []) (henv : env.Quiet S) (hfuel : S.card ≤ fuel) :
    ((∃ k x, x ∈ m k) → HashWaiting w m) ∧
      ((∃ n, w.waitCqe env fuel = .ok { w with eventWaitMax := n }) ∨
        ∃ e, w.waitCqe env fuel = .error e ∧ ∃ k x, x ∈ m k) := by
  have hne : ∀ k, ∀ x ∈ m k, k ≠ .active := by
    rintro k x hx rfl
    rw [hactive] at hx
    cases hx
  have hspent : ∀ k, ∀ x ∈ m k, w.spent x = true := by
    intro k x hx
    have hpark := h.parked k x hx
    refine hpark.spent (h.told k x hx).awake ?_ (hne k x hx)
    by_contra hr
    have hn := hpark.notices
    unfold Worker.kern at hn
    rw [Bool.not_eq_false] at hr
    rw [hcq, hr] at hn
    cases hn
  refine ⟨fun ⟨k, x, hx⟩ => ⟨k, hne k x hx, x, hx, ?_⟩, ?_⟩
  · have hs := hspent k x hx
    unfold TimedWorker.spent SessionCell.spent at hs
    simp only [Bool.and_eq_true, decide_eq_true_eq] at hs
    exact hs.1
  have hstop : { w with stopFlag := true } = w := by
    have := h.stop
    cases w
    simp_all
  unfold TimedWorker.waitCqe
  dsimp only
  rw [henv.arrivals, List.foldl_nil, hcq]
  dsimp only
  cases env.interrupt with
  | eintr => exact Or.inl ⟨w.eventWaitMax, rfl⟩
  | other => exact Or.inl ⟨w.eventWaitMax, rfl⟩
  | etime now =>
    dsimp only
    cases now with
    | none =>
      unfold esqSessionTiming
      dsimp only
      rw [hstop]
      exact Or.inl ⟨_, rfl⟩
    | some now =>
      unfold esqSessionTiming
      dsimp only
      rcases h.resting.timing_spent env.os env.clock now hspent
        (fun k => (h.length_le k).trans hfuel) timingOrder with hok | ⟨e, he, hsome⟩
      · rw [show ({ w with worker := w.worker } : TimedWorker) = w from rfl, hok]
        exact Or.inl ⟨_, rfl⟩
      · rw [show ({ w with worker := w.worker } : TimedWorker) = w from rfl, he]
        exact Or.inr ⟨_, rfl, hsome⟩

theorem Leaving.waiting (h : Leaving S w m) : ∀ k, ∀ x ∈ m k, (w.cell x).waiting = false :=
  fun k x hx => (h.told k x hx).awake

/-- **active list が空の worker は、積まれた completion を一つ受ける。** -/
theorem Leaving.waitCqe (h : Leaving S w m) (hactive : m .active = []) (henv : env.Quiet S)
    (hfuel : S.card ≤ fuel) :
    (∃ w' m', w.waitCqe env fuel = .ok w' ∧ Leaving S w' m' ∧
      (HashWaiting w' m' ↔ HashWaiting w m) ∧ (w'.potential S < w.potential S ∨
        w'.potential S = w.potential S ∧ ((∃ k x, x ∈ m' k) → HashWaiting w' m'))) ∨
      ∃ e, w.waitCqe env fuel = .error e ∧ HashWaiting w m := by
  cases hcq : w.worker.cq with
  | nil =>
    obtain ⟨hhash, ⟨n, hn⟩ | ⟨e, he, hsome⟩⟩ := h.waitCqe_idle hactive hcq henv hfuel
    · exact Or.inl ⟨_, m, hn, h.polling n, Iff.rfl, Or.inr ⟨rfl, hhash⟩⟩
    · exact Or.inr ⟨e, he, hhash hsome⟩
  | cons c cq =>
    obtain ⟨w', m', hw', hprog⟩ := h.toHeld.receiveFdEvent env hcq
    have hleaving : Leaving S w' m' := ⟨hprog.held, hprog.told h.told⟩
    refine Or.inl ⟨w'.updatePollingInterval, m', ?_, hleaving.polling _, hprog.hashWaiting,
      Or.inl hprog.potential⟩
    unfold TimedWorker.waitCqe
    dsimp only
    rw [henv.arrivals, List.foldl_nil, hcq]
    dsimp only
    rw [hw']
    rfl

/-! ## stop flag が立ってから抜けるまで -/

/-- stop flag を見た後の worker。 -/
structure Closing (S : Finset Nat) (l : LoopWorker) (m : WorkerList → List Nat) : Prop extends
    Leaving S l.timed m where
  woken : ∀ x ∈ l.wakeUp, x ∈ S

/-- あと何回りするか。 -/
def LoopWorker.remains (S : Finset Nat) (l : LoopWorker) : Nat :=
  2 * l.timed.potential S + if l.stopSessionFlag then 1 else 0

/-- `esq_worker_loop` の一回りの結果。`n` は残りの回数、`woken` は起こされた session である。 -/
inductive Turned (S : Finset Nat) (w : TimedWorker) (n : Nat) (m : WorkerList → List Nat)
    (woken : List Nat) : Except Fault (Turn LoopWorker) → Prop where
  | next {l' : LoopWorker} {m' : WorkerList → List Nat} (closing : Closing S l' m')
    (hash : HashWaiting l'.timed m' ↔ HashWaiting w m)
    (calm : woken = [] → l'.wakeUp = [] ∧ (l'.remains S < n ∨ HashWaiting w m)) :
    Turned S w n m woken (.ok (.next l'))
  | quit {l' : LoopWorker} (gone : ∀ x ∈ S, (l'.timed.session x).magic = false)
    (hash : ¬ HashWaiting w m) : Turned S w n m woken (.ok (.quit l'))
  | error {e : Fault} (hash : woken = [] → HashWaiting w m) : Turned S w n m woken (.error e)

theorem Held.stillWorkToDo_eq_false (h : Held S w m) :
    esqWorkerStillWorkToDo w = false ↔ ∀ k, m k = [] := by
  have hhead : ∀ k, (w.worker.ends k).head.isSome = false ↔ m k = [] := fun k => by
    rw [(h.lists.dll k).1.head_eq]
    cases m k <;> simp
  rw [esqWorkerStillWorkToDo, h.news, Option.isSome_none, Bool.or_false, List.any_eq_false]
  refine ⟨fun hall k => (hhead k).mp ?_, fun hall k _ => ?_⟩
  · simpa using hall k (by cases k <;> decide)
  · simpa using (hhead k).mpr (hall k)

theorem Held.checkStop (env : LoopEnv) {l : LoopWorker} (h : Held S l.timed m)
    (hwake : ∀ x ∈ l.wakeUp, x ∈ S) (hfuel : S.card ≤ fuel) :
    (∃ l' m', l.checkStop env fuel = .ok (.next l') ∧ Closing S l' m' ∧
      l'.stopSessionFlag = l.stopSessionFlag ∧ l'.wakeUp = l.wakeUp ∧
      (HashWaiting l'.timed m' ↔ HashWaiting l.timed m) ∧
      (∃ k x, x ∈ m k) ∧ ((∀ k, ∀ x ∈ m k, (l.timed.cell x).waiting = false) →
        l'.timed.potential S = l.timed.potential S)) ∨
      l.checkStop env fuel = .ok (.quit l) ∧ (∀ x ∈ S, (l.timed.session x).magic = false) ∧
        ¬ HashWaiting l.timed m := by
  unfold LoopWorker.checkStop
  rw [if_pos h.stop]
  cases hwork : esqWorkerStillWorkToDo l.timed with
  | true =>
    obtain ⟨w', hw', m', hleaving, hhash, hpot⟩ := h.notifyExitToAllSessions env hfuel
    refine Or.inl ⟨{ l with timed := w' }, m', ?_, ⟨hleaving, hwake⟩, rfl, rfl, hhash, ?_, hpot⟩
    · rw [if_pos rfl, hw']
      rfl
    · by_contra hnone
      rw [h.stillWorkToDo_eq_false.mpr fun k => List.eq_nil_iff_forall_not_mem.mpr
        fun x hx => hnone ⟨k, x, hx⟩] at hwork
      cases hwork
  | false =>
    have hempty : ∀ k x, x ∉ m k := fun k x => by
      rw [h.stillWorkToDo_eq_false.mp hwork k]
      exact List.not_mem_nil
    exact Or.inr ⟨rfl, fun x hx => h.gone x hx fun k => hempty k x,
      fun ⟨k, _, x, hx, _⟩ => hempty k x hx⟩

theorem LoopWorker.disturb_quiet {l : LoopWorker} (henv : env.Quiet S)
    (hstop : l.timed.stopFlag = true) :
    l.disturb env = { l with wakeUp := l.wakeUp ++ env.woken } := by
  obtain ⟨timed, wakeUp, flag⟩ := l
  obtain ⟨worker, wait, mco, windUp, eventWaitMax, stopFlag⟩ := timed
  subst hstop
  simp [LoopWorker.disturb, henv.stopSession]

theorem Closing.idleTurn {l : LoopWorker} (h : Closing S l m) (hactive : m .active = [])
    (hnone : l.wakeUp = []) (henv : env.Quiet S) (hfuel : S.card ≤ fuel) :
    Turned S l.timed (l.remains S) m [] (l.idleTurn env fuel) := by
  unfold LoopWorker.idleTurn
  by_cases hflag : l.stopSessionFlag = true
  · obtain ⟨w', hw', m', hleaving, hhash, hpot⟩ := h.toHeld.notifyExitToAllSessions env hfuel
    rw [if_pos hflag, hw']
    refine .next ⟨hleaving, h.woken⟩ hhash fun _ => ⟨hnone, Or.inl ?_⟩
    simp [LoopWorker.remains, hpot h.waiting, hflag]
  · rw [if_neg hflag]
    rcases h.waitCqe hactive henv hfuel with ⟨w', m', hw', hleaving, hhash, hpot⟩ | ⟨e, he, hhash⟩
    · rw [hw', ok_bind]
      have hcheck := Held.checkStop env (l := { l with timed := w' }) hleaving.toHeld h.woken
        hfuel
      rcases hcheck with ⟨l', m'', hnext, hclosing, hsame, hwake, hhash', hsome, hpot'⟩ |
        ⟨hquit, hgone, hno⟩
      · rw [hnext]
        have hrest : l'.timed.potential S = w'.potential S := hpot' hleaving.waiting
        refine .next hclosing (hhash'.trans hhash) fun _ => ⟨hwake.trans hnone, ?_⟩
        rcases hpot with hlt | ⟨-, hwait⟩
        · left
          unfold LoopWorker.remains
          rw [hsame, hrest]
          dsimp only
          omega
        · exact Or.inr (hhash.mp (hwait hsome))
      · rw [hquit]
        exact .quit hgone fun hw => hno (hhash.mpr hw)
    · rw [he]
      exact .error fun _ => hhash

/-- callback の間の session はどれも `ACTION_PICK_UP` を受け付けない。 -/
theorem SessionCell.Rests.pickUp {c : SessionCell} (h : c.Rests l) (bits : Nat) (os fetch : Int) :
    ∃ e, ({ c with session := { c.session with eventBits := bits } } : SessionCell).ready.step
      { action := .pickUp, os, fetch } = .error e := by
  refine ⟨.invalidActionType, ?_⟩
  unfold SessionCell.step SessionCell.ready
  cases h with
  | plain h _ =>
    cases h <;> simp_all [Session.ready, Session.step] <;> rfl
  | _ ht hs hw =>
    simp only [Session.ready, ht, hs, if_true, esqPtOfHashLock, hw]
    rfl

/-- **起こされた session が list にいれば process が終わり、解放されていれば何も起きない。** -/
theorem Closing.pickUpWokenUp (env : LoopEnv) {l : LoopWorker} {xs : List Nat}
    (h : Closing S l m) (hwake : l.wakeUp = x :: xs) : (∃ e, l.pickUpWokenUp env = .error e) ∨
      ∃ l', l.pickUpWokenUp env = .ok (true, l') ∧ Closing S l' m ∧
        (HashWaiting l'.timed m ↔ HashWaiting l.timed m) := by
  have hx : x ∈ S := h.woken x (hwake ▸ List.mem_cons_self)
  unfold LoopWorker.pickUpWokenUp
  rw [hwake]
  dsimp only
  generalize orBits _ _ = bits
  generalize hc : ({ l.timed.cell x with session :=
    { (l.timed.cell x).session with eventBits := bits } } : SessionCell) = c
  have hmagic : ((l.timed.setCell x c).session x).magic = (l.timed.session x).magic :=
    (congrArg (fun c => c.session.magic) setCell_cell_self).trans (by rw [← hc]; rfl)
  unfold TimedWorker.act TimedWorker.takeAction
  rw [hmagic]
  by_cases hon : ∃ k, x ∈ m k
  · obtain ⟨k, hk⟩ := hon
    have hlive : (l.timed.session x).magic = true := (h.parked k x hk).magic
    obtain ⟨e, he⟩ := (h.parked k x hk).rests.pickUp bits (env.os 0) (env.fetch 0)
    rw [hc] at he
    unfold TimedWorker.dispatch
    rw [if_pos hlive, setCell_cell_self, he]
    exact Or.inl ⟨e, rfl⟩
  · have hnone : ∀ k, x ∉ m k := fun k hk => hon ⟨k, hk⟩
    have hgone : (l.timed.session x).magic = false := h.gone x hx hnone
    have honly : OnlyAt x l.timed (l.timed.setCell x c) :=
      ⟨fun y hy => setCell_cell_of_ne hy, fun _ _ => rfl, rfl, id, fun _ hc => Or.inl hc⟩
    rw [if_neg (by rw [hgone]; decide)]
    refine Or.inr ⟨_, rfl, ⟨⟨h.toHeld.replace honly hx h.lists (fun _ _ _ => Iff.rfl)
      (fun k hk => absurd hk (hnone k)) (fun d hd hdx => hdx ▸ (h.cancels d hd).2)
      fun _ => hmagic.trans hgone, fun k y hy => ?_⟩, fun y hy => h.woken y ?_⟩,
      honly.hashWaiting_iff (fun _ _ _ => Iff.rfl) fun k _ => ?_⟩
    · rw [honly.cell y (fun hyx => hnone k (hyx ▸ hy))]
      exact h.told k y hy
    · exact hwake ▸ List.mem_cons_of_mem x hy
    · exact ⟨fun hk => absurd hk.1 (hnone k), fun hk => absurd hk.1 (hnone k)⟩

/-- **exit を知らせた後の一回りは、session を終わりに近づけるか、loop を抜ける。** -/
theorem Closing.turn {l : LoopWorker} (h : Closing S l m) (hquiet : env.Quiet S)
    (hcoop : env.Cooperates) (hfuel : S.card ≤ fuel) :
    Turned S l.timed (l.remains S) m (l.wakeUp ++ env.woken) (esqWorkerLoopTurn env fuel l) := by
  have hnews : ∀ k, l.timed.worker.popNewList k = none := fun k => by
    unfold Worker.popNewList
    rw [h.news k]
  have hwoken : ∀ x ∈ l.wakeUp ++ env.woken, x ∈ S := fun x hx =>
    (List.mem_append.mp hx).elim (h.woken x) (hquiet.woken x)
  unfold esqWorkerLoopTurn
  dsimp only
  rw [LoopWorker.disturb_quiet hquiet h.stop, (h.lists.dll .active).1.head_eq]
  generalize hwake : l.wakeUp ++ env.woken = woken at hwoken
  have hdisturbed : Closing S { l with wakeUp := woken } m := ⟨h.toLeaving, hwoken⟩
  cases hm : m .active with
  | nil =>
    have hpop : esqSessionPopTheFirstActive env fuel none l.timed = .ok (none, l.timed) := by
      cases fuel <;> rfl
    have hglobal : esqWorkerPickUpFromGlobalList env fuel l.timed = .ok (false, l.timed) := by
      unfold esqWorkerPickUpFromGlobalList
      rw [h.news]
    have hlocal : esqWorkerPickUpFromLocalList env l.timed = .ok (false, l.timed) := by
      unfold esqWorkerPickUpFromLocalList
      rw [hnews]
    rw [List.head?_nil, hpop, ok_bind]
    dsimp only
    rw [hglobal, ok_bind]
    dsimp only
    rw [if_neg (by decide), hlocal, ok_bind]
    dsimp only
    rw [if_neg (by decide)]
    cases woken with
    | nil => exact hdisturbed.idleTurn hm rfl hquiet hfuel
    | cons x xs =>
      rcases hdisturbed.pickUpWokenUp env rfl with ⟨e, he⟩ | ⟨l', hl', hclosing, hhash⟩
      · rw [he]
        exact .error fun hnil => absurd hnil (by simp)
      · rw [hl']
        exact .next hclosing hhash fun hnil => absurd hnil (by simp)
  | cons x xs =>
    have hx : x ∈ m .active := hm ▸ List.mem_cons_self
    have hexit : (l.timed.session x).exiting = true := by
      refine (h.told _ x hx).exiting.resolve_right fun ⟨_, hr⟩ => ?_
      cases (h.parked _ x hx).list_of_removing hr
    obtain ⟨w₁, w', m', hpop, hexec, hprog⟩ := h.toHeld.execute hx hexit hcoop hfuel
    rw [List.head?_cons, hpop, ok_bind]
    dsimp only
    rw [hexec]
    have hclosing : Closing S { l with timed := w', wakeUp := woken } m' :=
      ⟨⟨hprog.held, hprog.told h.told⟩, hwoken⟩
    refine .next hclosing hprog.hashWaiting fun hnil => ⟨hnil, Or.inl ?_⟩
    have hpot := hprog.potential
    unfold LoopWorker.remains
    dsimp only
    omega

theorem SessionCell.rank_le (c : SessionCell) : c.rank ≤ 2 := by
  unfold SessionCell.rank
  split
  · split <;> try split
    all_goals decide
  · decide

/-- stop flag を見てから `n` 回りする。`env k` は `k` 回り目に外で決まることである。 -/
def LoopWorker.shutdown (env : Nat → LoopEnv) (fuel n : Nat) (l : LoopWorker) :
    Except Fault (Turn LoopWorker) := do
  match ← l.checkStop (env 0) fuel with
  | .next l => loopFrom (fun k => esqWorkerLoopTurn (env k) fuel) 1 n l
  | .quit l => .ok (.quit l)

/--
**stop flag が立った worker は、active list の外で hash lock を待つ session が無く、誰も起こされなければ、
`4 * S.card + 2` 回りまでにどの session も終わらせて loop を抜ける。待つ session があれば、
`esq_hash_lock_release_all` が誰を起こしても、loop を抜けることはない。**

callback は exit を受けたら session を終わらせる（`Cooperates`）。hash lock の session は exit を受けても
timing list から active list に移らないので、callback が呼ばれず、`esq_worker_still_work_to_do` は
真のままになる。起こすと `ACTION_PICK_UP` が届き、`INVALID_ACTION_TYPE` で process が終わる。
-/
theorem worker_shutdown (env : Nat → LoopEnv) (fuel : Nat) (l : LoopWorker)
    (h : Held S l.timed m) (hwake : ∀ x ∈ l.wakeUp, x ∈ S) (hquiet : ∀ k, (env k).Quiet S)
    (hcoop : ∀ k, (env k).Cooperates) (hfuel : S.card ≤ fuel) :
    (¬ HashWaiting l.timed m → l.wakeUp = [] → (∀ k, (env k).woken = []) →
      ∃ n ≤ 4 * S.card + 2, ∃ l', l.shutdown env fuel n = .ok (.quit l') ∧
        ∀ x ∈ S, (l'.timed.session x).magic = false) ∧
    (HashWaiting l.timed m → ∀ n l', l.shutdown env fuel n ≠ .ok (.quit l')) := by
  rcases h.checkStop (env 0) hwake hfuel with
    ⟨l₁, m₁, hnext, hclosing, -, hsame, hhash, -, -⟩ | ⟨hquit, hgone, hnone⟩
  · have hshut : ∀ n, l.shutdown env fuel n
        = loopFrom (fun k => esqWorkerLoopTurn (env k) fuel) 1 n l₁ := fun n => by
      unfold LoopWorker.shutdown
      rw [hnext]
      rfl
    refine ⟨fun hno hcalm hwoken => ?_, fun hwait n l' => ?_⟩
    · have hpot : l₁.remains S ≤ 4 * S.card + 1 := by
        have hsum : l₁.timed.potential S ≤ S.card * 2 :=
          Finset.sum_le_card_nsmul S _ 2 fun x _ => SessionCell.rank_le _
        unfold LoopWorker.remains
        split <;> omega
      have hturn : ∀ k l, (l.wakeUp = [] ∧ ∃ m, Closing S l m ∧ ¬ HashWaiting l.timed m) →
          (∃ t, esqWorkerLoopTurn (env k) fuel l = .ok (.next t) ∧
            (t.wakeUp = [] ∧ ∃ m, Closing S t m ∧ ¬ HashWaiting t.timed m) ∧
              t.remains S < l.remains S) ∨
          ∃ t, esqWorkerLoopTurn (env k) fuel l = .ok (.quit t) ∧
            ∀ x ∈ S, (t.timed.session x).magic = false := by
        rintro k l ⟨hnil, m, hclosing, hno⟩
        have hturn := hclosing.turn (hquiet k) (hcoop k) hfuel
        rw [hnil, hwoken k] at hturn
        generalize esqWorkerLoopTurn (env k) fuel l = r at hturn
        cases hturn with
        | next hclosing' hhash' hcalm =>
          obtain ⟨hnil', hlt⟩ := hcalm rfl
          exact Or.inl ⟨_, rfl, ⟨hnil', _, hclosing', fun hw => hno (hhash'.mp hw)⟩,
            hlt.resolve_right hno⟩
        | quit hgone _ => exact Or.inr ⟨_, rfl, hgone⟩
        | error hw => exact absurd (hw rfl) hno
      obtain ⟨n, hn, l', hl', hgone⟩ := exists_quit (k := 1) hturn
        ⟨hsame.trans hcalm, m₁, hclosing, fun hw => hno (hhash.mp hw)⟩
      exact ⟨n, by omega, l', (hshut n).trans hl', hgone⟩
    · rw [hshut]
      refine not_quit (P := fun l => ∃ m, Closing S l m ∧ HashWaiting l.timed m)
        (fun k l ⟨m, hclosing, hw⟩ r hr => ?_) ⟨m₁, hclosing, hhash.mpr hwait⟩ n
      have hturn := hclosing.turn (hquiet k) (hcoop k) hfuel
      rw [hr] at hturn
      cases hturn with
      | next hclosing' hhash' _ => exact ⟨_, rfl, _, hclosing', hhash'.mpr hw⟩
      | quit _ hno => exact absurd hw hno
  · have hshut : ∀ n, l.shutdown env fuel n = .ok (.quit l) := fun n => by
      unfold LoopWorker.shutdown
      rw [hquit]
      rfl
    exact ⟨fun _ _ _ => ⟨0, Nat.zero_le _, l, hshut 0, hgone⟩, fun hwait => absurd hwait hnone⟩

end

/-- 1 は multi shot の session である。 -/
def closingLists : WorkerList → List Nat
  | .ofNoTime => [1]
  | _ => []

def closingWorker : TimedWorker where
  worker := { Worker.init with
    session := fun _ => {
      magic := true, sessionType := .multiSocketCb, lc := .multi .windedUp, cb := 1, fd := 5 }
    ends := fun l => { head := (closingLists l).head?, tail := (closingLists l).getLast? }
    poll := fun _ => .multiShot }
  wait := fun _ => {}
  mco := fun _ => .start
  windUp := fun _ => {}
  eventWaitMax := -1
  stopFlag := true

theorem mem_closingLists {l : WorkerList} {x : Nat} (hx : x ∈ closingLists l) :
    l = .ofNoTime ∧ x = 1 := by
  cases l with
  | ofNoTime => exact ⟨rfl, List.mem_singleton.mp hx⟩
  | _ => cases hx

theorem closingWorker_held : Held {1} closingWorker closingLists where
  lists := by
    refine ⟨fun l => ?_, fun hi hj => (mem_closingLists hi).1.trans (mem_closingLists hj).1.symm⟩
    cases l with
    | ofNoTime => exact ⟨⟨rfl, rfl⟩, ⟨rfl, rfl⟩⟩
    | _ => exact ⟨rfl, rfl⟩
  parked l x hx := by
    obtain ⟨rfl, rfl⟩ := mem_closingLists hx
    exact {
      magic := rfl
      callable := by decide
      lone := ⟨rfl, rfl, rfl⟩
      rests := .plain (.multiWindedUp (s := closingWorker.session 1) rfl rfl) (by decide)
      removed := by decide
      armed := by decide
      notices := rfl }
  cancels _ hc := by cases hc
  news _ := rfl
  stop := rfl
  within l x hx := by rw [(mem_closingLists hx).2]; exact Finset.mem_singleton_self 1
  gone x hx hnone := by
    rw [Finset.mem_singleton] at hx
    exact absurd (hx ▸ List.mem_cons_self) (hnone .ofNoTime)

/-- callback はどれも exit を受けて終わる。 -/
def LoopEnv.closing : LoopEnv :=
  { LoopEnv.stopping with
    calls := fun w x => if (w.session x).sessionType = .multiSocketCb
      then [.act x { action := .removeFd, os := 0 } none] else []
    isEnd := fun _ _ => true }

theorem worker_shutdown_sample : ∃ n ≤ 6, ∃ l',
    (LoopWorker.mk closingWorker [] false).shutdown (fun _ => .closing) 1 n = .ok (.quit l') ∧
      (l'.timed.session 1).magic = false := by
  obtain ⟨hquit, -⟩ := worker_shutdown (fun _ => .closing) 1 ⟨closingWorker, [], false⟩
    closingWorker_held (by simp) (fun _ => ⟨by simp [LoopEnv.closing, LoopEnv.stopping], rfl, rfl⟩)
    (fun _ => ⟨fun _ _ _ ht => if_neg ht, fun _ _ _ ht => ⟨0, none, if_pos ht⟩, fun _ _ _ => rfl⟩)
    (Finset.card_singleton 1).le
  obtain ⟨n, hn, l', hl', hgone⟩ := hquit (fun ⟨_, _, _, _, ht⟩ => by cases ht) rfl fun _ => rfl
  exact ⟨n, hn, l', hl', hgone 1 (Finset.mem_singleton_self 1)⟩

end Esq
