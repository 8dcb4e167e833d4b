import Esq.Session.McoWorker
import Mathlib.Data.List.Perm.Subperm

/-!
# exit を全 session に知らせる

`session/worker.c` の `esq_worker_notify_exit_to_all_sessions`。六つの list を順に辿り、
どの session にも `ACTION_NOTIFY_EXIT` を渡す。受け取った session はその場で list を抜けて
active list か no time の list に入るので、辿っている list も、これから辿る list も変わる。

* `RestsIn.notifyExit` — callback の間で止まっている session は `ACTION_NOTIFY_EXIT` を受け付け、
  名指す list から名指す list へ移る。移り先は、辿っている list の末尾ではない
* `notifyExitToSessionList_spec` — 一つの list を辿り終えると、その list にいた session は
  すべて受け取っている
* `exit_broadcast` — 六つの list を辿り終えると、いた session はすべて受け取っていて、
  どれもちょうど一つの list にいる
-/

namespace Esq

open Infra

/-! ## callback の間 -/

/-- callback が動いていないときに list にいる session の状態と、その状態が名指す list。 -/
inductive RestsIn (s : Session) (lc : McoLabel) : WorkerList → Prop where
  | singleWindedUp (ht : s.sessionType = .socketCb) (hl : s.lc = .single .windedUp) :
    RestsIn s lc s.timingList
  | singleRemoving (ht : s.sessionType = .socketCb)
    (hl : s.lc = .single .waitForRemovedThenActive) : RestsIn s lc .ofNoTime
  | singleActive (ht : s.sessionType = .socketCb) (hl : s.lc = .single .active) :
    RestsIn s lc .active
  | multiWindedUp (ht : s.sessionType = .multiSocketCb) (hl : s.lc = .multi .windedUp) :
    RestsIn s lc s.timingList
  | multiRemoving (ht : s.sessionType = .multiSocketCb) (hl : s.lc = .multi .waitForRemoved) :
    RestsIn s lc .ofNoTime
  | multiActive (ht : s.sessionType = .multiSocketCb) (hl : s.lc = .multi .active) :
    RestsIn s lc .active
  | mcoWindedUp (ht : s.sessionType = .mco) (hl : lc = .windedUp) : RestsIn s lc s.timingList
  | mcoActive (ht : s.sessionType = .mco) (hl : lc = .active) : RestsIn s lc .active

structure TookExit (s : Session) (l : WorkerList) (p : PtRun) (lc : McoLabel) : Prop where
  magic : p.session.magic = s.magic
  postOp : p.session.postOp = popNoOp
  /-- 新しい状態が名指す list へ移る -/
  moves : ∃ l', RestsIn p.session lc l' ∧ (Place.list l).moves p.effects = some (.list l')
  /-- いた list の末尾には入り直さない -/
  notTail : .joinTail l ∉ p.effects

section

variable {s : Session} {lc : McoLabel} {l : WorkerList} {os : Int}

theorem tookExit_toActive {p : PtRun} (hm : p.session.magic = s.magic)
    (hop : p.session.postOp = popNoOp) (hrest : RestsIn p.session lc .active)
    (heff : p.effects = [.left s.timingList, .joinTail .active]) :
    TookExit s s.timingList p lc where
  magic := hm
  postOp := hop
  moves := ⟨.active, hrest, by rw [heff]; simp [Place.moves, Place.move]⟩
  notTail := by
    rw [heff]
    simpa [Session.timingList] using timingList_ne_active s.timeouts s.timeoutms

theorem tookExit_stay {p : PtRun} (hm : p.session.magic = s.magic)
    (hop : p.session.postOp = popNoOp) (hrest : RestsIn p.session lc l) (heff : p.effects = []) :
    TookExit s l p lc where
  magic := hm
  postOp := hop
  moves := ⟨l, hrest, by rw [heff]; rfl⟩
  notTail := by rw [heff]; simp

theorem removeFdThenActive_tookExit {p : PtRun} (hm : p.session.magic = s.magic)
    (ht : p.session.sessionType = .socketCb) (hop : p.session.postOp = popNoOp)
    (htime : p.session.timingList = s.timingList) (heff : p.effects = []) :
    TookExit s s.timingList (SingleShot.removeFdThenActive p os) lc := by
  unfold SingleShot.removeFdThenActive
  split
  · split
    · refine tookExit_toActive hm hop (.singleActive ht rfl) ?_
      rw [← htime]
      simp [heff, Session.timingList]
    · simp only
      generalize hp' : ((p.set fun s => { s with fd := 0 }).emit .removeSocketFd) = p'
      have heff' : p'.effects = [.removeSocketFd] := by rw [← hp']; simp [heff]
      have htime' : p'.session.timingList = s.timingList := by rw [← hp', ← htime]; rfl
      have hmoves : (Place.list s.timingList).moves p'.effects
          = some (.list p'.session.timingList) := by
        rw [heff', htime']
        rfl
      obtain ⟨hm', ht', hop'⟩ := changeToNoTimingList_session p'
      refine ⟨hm'.trans (by rw [← hp']; exact hm), hop'.trans (by rw [← hp']; exact hop),
        ⟨.ofNoTime, .singleRemoving (ht'.trans (by rw [← hp']; exact ht)) rfl,
          (changeToNoTimingList_moves p' _ hmoves).1⟩, ?_⟩
      -- 先頭に入り直すことはあっても、末尾には入らない
      show Effect.joinTail _ ∉ p'.changeToNoTimingList.effects
      unfold PtRun.changeToNoTimingList
      split <;> simp [heff']
  · refine tookExit_toActive hm hop (.singleActive ht rfl) ?_
    rw [← htime]
    simp [heff, Session.timingList]

/-- **callback の間で止まっている session は、`ACTION_NOTIFY_EXIT` を受け付ける。** -/
theorem RestsIn.notifyExit (h : RestsIn s lc l) (hop : s.postOp = popNoOp) (os : Int)
    (isEnd : Bool) :
    ∃ p lc', s.stepMco lc { action := .notifyExit, os, isEnd } = .ok (p, lc')
      ∧ TookExit s l p lc' := by
  unfold Session.stepMco Session.step
  cases h with
  | singleWindedUp ht hl =>
    simp only [ht, esqPtOfSingleShotSocket, hl, reduceCtorEq, if_false]
    exact ⟨_, _, rfl, removeFdThenActive_tookExit rfl ht rfl rfl rfl⟩
  | singleRemoving ht hl =>
    simp only [ht, esqPtOfSingleShotSocket, hl, reduceCtorEq, if_false]
    exact ⟨_, _, rfl, tookExit_stay rfl rfl (.singleRemoving ht rfl) rfl⟩
  | singleActive ht hl =>
    simp only [ht, esqPtOfSingleShotSocket, hl, reduceCtorEq, if_false]
    exact ⟨_, _, rfl, tookExit_stay rfl rfl (.singleActive ht rfl) rfl⟩
  | multiWindedUp ht hl =>
    simp only [ht, esqPtOfMultiShotSocket, hl, reduceCtorEq, if_false]
    exact ⟨_, _, rfl, tookExit_toActive rfl hop (.multiActive ht rfl) rfl⟩
  | multiRemoving ht hl =>
    simp only [ht, esqPtOfMultiShotSocket, hl, reduceCtorEq, if_false]
    exact ⟨_, _, rfl, tookExit_stay rfl rfl (.multiRemoving ht rfl) rfl⟩
  | multiActive ht hl =>
    simp only [ht, esqPtOfMultiShotSocket, hl, reduceCtorEq, if_false]
    exact ⟨_, _, rfl, tookExit_stay rfl rfl (.multiActive ht rfl) rfl⟩
  | mcoWindedUp ht hl =>
    subst hl
    simp only [ht, esqPtOfMco, if_true]
    exact ⟨_, _, rfl, tookExit_toActive rfl rfl (.mcoActive ht rfl) rfl⟩
  | mcoActive ht hl =>
    subst hl
    simp only [ht, esqPtOfMco, if_true]
    exact ⟨_, _, rfl, tookExit_stay rfl rfl (.mcoActive ht rfl) rfl⟩

end

/-! ## list の書き換え -/

def Effect.rewrite (x : Nat) (m : WorkerList → List Nat) : Effect → WorkerList → List Nat
  | .joinHead l => Function.update m l (x :: m l)
  | .joinTail l => Function.update m l (m l ++ [x])
  | .left l => Function.update m l ((m l).erase x)
  | _ => m

def rewriteLists (x : Nat) (m : WorkerList → List Nat) (es : List Effect) :
    WorkerList → List Nat := es.foldl (fun m e => e.rewrite x m) m

def ListedAt (m : WorkerList → List Nat) (x : Nat) : Place → Prop
  | .nowhere => ∀ l, x ∉ m l
  | .list l => x ∈ m l
  | _ => True

section

variable {w : Worker} {m : WorkerList → List Nat} {x y : Nat} {p q : Place} {l : WorkerList}

theorem isFamily_execEffect {e : Effect} (h : IsFamily w.links w.ends m) (hat : ListedAt m x p)
    (hmove : p.move e = some q) :
    IsFamily (w.execEffect x e).links (w.execEffect x e).ends (e.rewrite x m)
      ∧ ListedAt (e.rewrite x m) x q := by
  cases e with
  | joinHead l =>
    cases p with
    | nowhere =>
      cases hmove
      refine ⟨h.joinHead hat, ?_⟩
      show x ∈ Function.update m l (x :: m l) l
      simp
    | _ => cases hmove
  | joinTail l =>
    cases p with
    | nowhere =>
      cases hmove
      refine ⟨h.joinTail hat, ?_⟩
      show x ∈ Function.update m l (m l ++ [x]) l
      simp
    | _ => cases hmove
  | left l =>
    cases p with
    | list l' =>
      simp only [Place.move] at hmove
      split at hmove
      · next heq =>
        subst heq
        cases hmove
        refine ⟨h.left hat, fun l => ?_⟩
        by_cases hl : l = l'
        · subst hl
          show x ∉ Function.update m l ((m l).erase x) l
          rw [Function.update_self]
          exact (h.dll l).nodup.not_mem_erase
        · show x ∉ Function.update m l' ((m l').erase x) l
          rw [Function.update_of_ne hl]
          exact fun hm => hl (h.disjoint hm hat)
      · cases hmove
    | _ => cases hmove
  | removeSocketFd =>
    have hq : p = q := by cases p <;> exact Option.some.inj hmove
    refine ⟨?_, hq ▸ hat⟩
    unfold Worker.execEffect
    cases w.poll x <;> exact h
  | _ =>
    have hq : p = q := by cases p <;> exact Option.some.inj hmove
    exact ⟨h, hq ▸ hat⟩

theorem isFamily_execEffects {es : List Effect} (h : IsFamily w.links w.ends m)
    (hat : ListedAt m x p) (hmoves : p.moves es = some q) :
    IsFamily (w.execEffects x es).links (w.execEffects x es).ends (rewriteLists x m es)
      ∧ ListedAt (rewriteLists x m es) x q := by
  induction es generalizing w m p with
  | nil =>
    cases hmoves
    exact ⟨h, hat⟩
  | cons e es ih =>
    rw [Place.moves] at hmoves
    cases hmove : p.move e with
    | none => simp [hmove] at hmoves
    | some r =>
      rw [hmove] at hmoves
      obtain ⟨h', hat'⟩ := isFamily_execEffect h hat hmove
      exact ih h' hat' hmoves

theorem mem_rewriteLists (hy : y ≠ x) (es : List Effect) (m : WorkerList → List Nat)
    (l : WorkerList) : y ∈ rewriteLists x m es l ↔ y ∈ m l := by
  induction es generalizing m with
  | nil => exact Iff.rfl
  | cons e es ih =>
    refine (ih (e.rewrite x m)).trans ?_
    cases e with
    | joinHead l' => exact mem_update_cons_iff hy l
    | joinTail l' => exact mem_update_append_iff hy l
    | left l' => exact mem_update_erase_iff hy l
    | _ => exact Iff.rfl

theorem rewriteLists_suffix {rest : List Nat} (hx : x ∉ rest) {es : List Effect}
    (hes : .joinTail l ∉ es) (hm : rest <:+ m l) : rest <:+ rewriteLists x m es l := by
  induction es generalizing m with
  | nil => exact hm
  | cons e es ih =>
    refine ih (fun he => hes (List.mem_cons_of_mem e he)) ?_
    obtain ⟨front, hfront⟩ := hm
    cases e with
    | joinHead l' =>
      by_cases hl : l = l'
      · subst hl
        exact ⟨x :: front, by simp [Effect.rewrite, ← hfront]⟩
      · exact ⟨front, by simp [Effect.rewrite, Function.update_of_ne hl, hfront]⟩
    | joinTail l' =>
      have hl : l ≠ l' := fun he => hes (by simp [he])
      exact ⟨front, by simp [Effect.rewrite, Function.update_of_ne hl, hfront]⟩
    | left l' =>
      by_cases hl : l = l'
      · subst hl
        refine ⟨front.erase x, ?_⟩
        simp only [Effect.rewrite, Function.update_self, ← hfront]
        by_cases hmem : x ∈ front
        · exact (List.erase_append_left _ hmem).symm
        · rw [List.erase_append_right _ hmem, List.erase_of_not_mem hx,
            List.erase_of_not_mem hmem]
      · exact ⟨front, by simp [Effect.rewrite, Function.update_of_ne hl, hfront]⟩
    | _ => exact ⟨front, hfront⟩

end

/-! ## 走査 -/

/-- 知らせている途中の worker。`delivered` はこれまでに `ACTION_NOTIFY_EXIT` を渡した session。 -/
structure Broadcast where
  mw : McoWorker
  delivered : List Nat

/-- `__esq_notify_exit`。`os n` は `n` 回目の間の `esq_os_events_*` の戻り値。 -/
def Broadcast.notifyExit (os : Nat → Int) (b : Broadcast) (x : Nat) : Except Fault Broadcast := do
  let (_, mw) ← b.mw.takeAction x { action := .notifyExit, os := os b.delivered.length }
  .ok { mw, delivered := b.delivered ++ [x] }

def notifyExitToSessionList (os : Nat → Int) (fuel : Nat) (l : WorkerList) (b : Broadcast) :
    Except Fault Broadcast :=
  walkSaved (fun b x => b.mw.worker.links.next x) (Broadcast.notifyExit os) .endless fuel
    (b.mw.worker.ends l).head b

def exitOrder : List WorkerList :=
  [.active, .of0msTo100ms, .of100msTo1s, .of1sTo10s, .ofLongerThan10s, .ofNoTime]

def esqWorkerNotifyExitToAllSessions (os : Nat → Int) (fuel : Nat) (mw : McoWorker) :
    Except Fault Broadcast :=
  exitOrder.foldlM (fun b l => notifyExitToSessionList os fuel l b) { mw, delivered := [] }

/-- どの session も、callback の間の状態が名指す list にいる。 -/
structure AtRest (mw : McoWorker) (m : WorkerList → List Nat) : Prop where
  lists : IsFamily mw.worker.links mw.worker.ends m
  magic : ∀ l, ∀ x ∈ m l, (mw.session x).magic = true
  rests : ∀ l, ∀ x ∈ m l, RestsIn (mw.session x) (mw.lc x) l

section

variable {b : Broadcast} {m : WorkerList → List Nat} {l : WorkerList} {x : Nat}

theorem RestsIn.ready {s : Session} {lc : McoLabel} (h : RestsIn s lc l) :
    RestsIn s.ready lc l := by
  cases h with
  | singleWindedUp ht hl => exact .singleWindedUp (s := s.ready) ht hl
  | singleRemoving ht hl => exact .singleRemoving ht hl
  | singleActive ht hl => exact .singleActive ht hl
  | multiWindedUp ht hl => exact .multiWindedUp (s := s.ready) ht hl
  | multiRemoving ht hl => exact .multiRemoving ht hl
  | multiActive ht hl => exact .multiActive ht hl
  | mcoWindedUp ht hl => exact .mcoWindedUp (s := s.ready) ht hl
  | mcoActive ht hl => exact .mcoActive ht hl

structure Notified (b b' : Broadcast) (m m' : WorkerList → List Nat) (l : WorkerList)
    (x : Nat) : Prop where
  atRest : AtRest b'.mw m'
  delivered : b'.delivered = b.delivered ++ [x]
  /-- 渡した session はどれかの list にいる -/
  mem : ∃ l', x ∈ m' l'
  others : ∀ y, y ≠ x → ∀ l', y ∈ m' l' ↔ y ∈ m l'
  suffix : ∀ rest, x ∉ rest → rest <:+ m l → rest <:+ m' l

/-- **list にいる session 一つに `ACTION_NOTIFY_EXIT` を渡す。** -/
theorem notifyExit_spec (os : Nat → Int) (h : AtRest b.mw m) (hx : x ∈ m l) :
    ∃ b' m', b.notifyExit os x = .ok b' ∧ Notified b b' m m' l x := by
  obtain ⟨p, lc, hstep, htook⟩ := ((h.rests l x hx).ready).notifyExit rfl
    (os b.delivered.length) false
  obtain ⟨r, htake⟩ := mcoTakeAction_stay (h.magic l x hx) hstep (Or.inl htook.postOp)
  obtain ⟨l', hrest', hmoves⟩ := htook.moves
  have hset : IsFamily (b.mw.worker.setSession x p.session).links
      (b.mw.worker.setSession x p.session).ends m := h.lists
  obtain ⟨hfam, hmem⟩ := isFamily_execEffects hset (p := .list l) hx hmoves
  refine ⟨{ mw := b.mw.stepped x p lc, delivered := b.delivered ++ [x] },
    rewriteLists x m p.effects, ?_, ⟨⟨hfam, ?_, ?_⟩, rfl, ⟨l', hmem⟩, ?_, ?_⟩⟩
  · unfold Broadcast.notifyExit
    rw [htake]
    rfl
  · intro k y hy
    by_cases hyx : y = x
    · subst hyx
      exact (congrArg Session.magic stepped_session_self).trans
        (htook.magic.trans (h.magic l y hx))
    · refine (congrArg Session.magic (stepped_session_of_ne hyx)).trans ?_
      exact h.magic k y ((mem_rewriteLists hyx _ _ _).mp hy)
  · intro k y hy
    by_cases hyx : y = x
    · -- 渡した session は、新しい状態が名指す list にだけいる
      subst hyx
      obtain rfl : k = l' := hfam.disjoint hy hmem
      rw [stepped_session_self, stepped_lc_self]
      exact hrest'
    · rw [stepped_session_of_ne hyx, stepped_lc_of_ne hyx]
      exact h.rests k y ((mem_rewriteLists hyx _ _ _).mp hy)
  · exact fun y hy k => mem_rewriteLists hy _ _ _
  · exact fun rest hrest hsuf => rewriteLists_suffix hrest htook.notTail hsuf

/-! ### 一つの list -/

/-- list `l` を辿っている途中。`rest` はこれから渡す session で、`b₀` と `m₀` は辿り始めの様子。 -/
structure Walking (b₀ : Broadcast) (m₀ : WorkerList → List Nat) (l : WorkerList) (b : Broadcast)
    (m : WorkerList → List Nat) (rest : List Nat) : Prop where
  atRest : AtRest b.mw m
  suffix : rest <:+ m l
  kept : ∀ x ∈ b₀.delivered, x ∈ b.delivered
  visited : ∀ x ∈ m₀ l, x ∈ rest ∨ x ∈ b.delivered
  elsewhere : ∀ l', l' ≠ l → ∀ x ∈ m₀ l', x ∈ m l'
  listed : ∀ x, (∃ l', x ∈ m l') ↔ ∃ l', x ∈ m₀ l'

theorem Walking.start (h : AtRest b.mw m) (l : WorkerList) : Walking b m l b m (m l) where
  atRest := h
  suffix := List.suffix_refl _
  kept _ hx := hx
  visited _ hx := Or.inl hx
  elsewhere _ _ _ hx := hx
  listed _ := Iff.rfl

theorem Walking.advance {b₀ : Broadcast} {m₀ : WorkerList → List Nat} {rest : List Nat}
    (os : Nat → Int) (h : Walking b₀ m₀ l b m (x :: rest)) :
    b.mw.worker.links.next x = rest.head? ∧
      ∃ b', b.notifyExit os x = .ok b' ∧ ∃ m', Walking b₀ m₀ l b' m' rest := by
  obtain ⟨front, hfront⟩ := h.suffix
  have hdll := h.atRest.lists.dll l
  rw [← hfront] at hdll
  have hx : x ∈ m l := h.suffix.mem List.mem_cons_self
  have hrest : x ∉ rest := (List.nodup_cons.mp hdll.nodup.of_append_right).1
  obtain ⟨b', m', hb', hn⟩ := notifyExit_spec os h.atRest hx
  refine ⟨hdll.1.next_eq, b', hb', m', hn.atRest, ?_, ?_, ?_, ?_, ?_⟩
  · exact hn.suffix rest hrest ((List.suffix_cons x rest).trans h.suffix)
  · intro y hy
    rw [hn.delivered]
    exact List.mem_append_left _ (h.kept y hy)
  · intro y hy
    rw [hn.delivered]
    rcases h.visited y hy with hmem | hmem
    · rcases List.mem_cons.mp hmem with rfl | hmem
      · exact Or.inr (by simp)
      · exact Or.inl hmem
    · exact Or.inr (List.mem_append_left _ hmem)
  · -- 他の list の session は、渡した session ではない
    intro l' hl' y hy
    have hy' := h.elsewhere l' hl' y hy
    refine (hn.others y ?_ l').mpr hy'
    rintro rfl
    exact hl' (h.atRest.lists.disjoint hy' hx)
  · intro y
    rw [← h.listed y]
    by_cases hyx : y = x
    · subst hyx
      exact ⟨fun _ => ⟨l, hx⟩, fun _ => hn.mem⟩
    · simp only [hn.others y hyx]

/-- **一つの list を辿り終えると、その list にいた session はすべて受け取っている。** -/
theorem notifyExitToSessionList_spec (os : Nat → Int) {fuel : Nat} (h : AtRest b.mw m)
    (hfuel : (m l).length ≤ fuel) :
    ∃ b' m', notifyExitToSessionList os fuel l b = .ok b' ∧ Walking b m l b' m' [] := by
  have hvisit : ∀ (b' : Broadcast) x rest, (∃ m', Walking b m l b' m' (x :: rest)) →
      b'.mw.worker.links.next x = rest.head? ∧
        ∃ t, b'.notifyExit os x = .ok t ∧ ∃ m', Walking b m l t m' rest :=
    fun b' x rest ⟨m', hw⟩ => hw.advance os
  obtain ⟨b', hb', m', hw⟩ := walkSaved_eq_ok Fault.endless
    (P := fun b' rest => ∃ m', Walking b m l b' m' rest) hvisit ⟨m, .start h l⟩ hfuel
  refine ⟨b', m', ?_, hw⟩
  unfold notifyExitToSessionList
  rw [(h.lists.dll l).1.head_eq]
  exact hb'

/-! ### 六つの list -/

theorem notifyExitToLists_spec (os : Nat → Int) {fuel : Nat} {all : List Nat} (hfuel : all.length ≤ fuel)
    (ls : List WorkerList) (hls : ls.Nodup) (h : AtRest b.mw m)
    (hall : ∀ l, ∀ x ∈ m l, x ∈ all) :
    ∃ b' m', ls.foldlM (fun b l => notifyExitToSessionList os fuel l b) b = .ok b'
      ∧ AtRest b'.mw m' ∧ (∀ x ∈ b.delivered, x ∈ b'.delivered)
      ∧ (∀ l ∈ ls, ∀ x ∈ m l, x ∈ b'.delivered)
      ∧ ∀ x, (∃ l, x ∈ m' l) ↔ ∃ l, x ∈ m l := by
  induction ls generalizing b m with
  | nil => exact ⟨b, m, rfl, h, fun _ hx => hx, by simp, fun _ => Iff.rfl⟩
  | cons l ls ih =>
    obtain ⟨hl, hls⟩ := List.nodup_cons.mp hls
    have hlen : (m l).length ≤ fuel := by
      refine le_trans ?_ hfuel
      exact ((h.lists.dll l).nodup.subperm (hall l)).length_le
    obtain ⟨b₁, m₁, hb₁, hw⟩ := notifyExitToSessionList_spec os h hlen
    have hall₁ : ∀ l, ∀ x ∈ m₁ l, x ∈ all := by
      intro l' x hx
      obtain ⟨k, hk⟩ := (hw.listed x).mp ⟨l', hx⟩
      exact hall k x hk
    obtain ⟨b', m', hb', hrest, hkept, hdone, hlisted⟩ := ih hls hw.atRest hall₁
    refine ⟨b', m', ?_, hrest, fun x hx => hkept x (hw.kept x hx), ?_, ?_⟩
    · rw [List.foldlM_cons, hb₁]
      exact hb'
    · intro k hk x hx
      rcases List.mem_cons.mp hk with rfl | hk
      · rcases hw.visited x hx with hnil | hx
        · cases hnil
        · exact hkept x hx
      · exact hdone k hk x (hw.elsewhere k (fun he => hl (he ▸ hk)) x hx)
    · exact fun x => (hlisted x).trans (hw.listed x)

end

theorem notifyExitToLists_mono {os : Nat → Int} {n k : Nat} (hk : n ≤ k) {ls : List WorkerList}
    {b b' : Broadcast}
    (h : ls.foldlM (fun b l => notifyExitToSessionList os n l b) b = .ok b') :
    ls.foldlM (fun b l => notifyExitToSessionList os k l b) b = .ok b' := by
  induction ls generalizing b with
  | nil => exact h
  | cons l ls ih =>
    rw [List.foldlM_cons] at h ⊢
    obtain ⟨b₁, hb₁, h⟩ := bind_eq_ok.mp h
    exact bind_eq_ok.mpr ⟨b₁, walkSaved_mono hb₁ hk, ih h⟩

theorem mem_exitOrder (l : WorkerList) : l ∈ exitOrder := by cases l <;> decide

/--
**六つの list がどんな中身でも、callback の間で止まっている session ばかりなら、
`esq_worker_notify_exit_to_all_sessions` は終わり、`INVALID_ACTION_TYPE` に着かない。
いた session はどれも `ACTION_NOTIFY_EXIT` を受け取り、終わった後もちょうど一つの list にいる。**
-/
theorem exit_broadcast (os : Nat → Int) (mw : McoWorker) (m : WorkerList → List Nat)
    (h : AtRest mw m) :
    ∃ b m' enough, (∀ fuel, enough ≤ fuel → esqWorkerNotifyExitToAllSessions os fuel mw = .ok b)
      ∧ (∀ l, ∀ x ∈ m l, x ∈ b.delivered ∧ ∃! l', x ∈ m' l') ∧ AtRest b.mw m' := by
  obtain ⟨b, m', hb, hrest, -, hdone, hlisted⟩ := notifyExitToLists_spec os
    (b := { mw, delivered := [] }) (le_refl (exitOrder.flatMap m).length) exitOrder (by decide) h
    fun l x hx => List.mem_flatMap.mpr ⟨l, mem_exitOrder l, hx⟩
  refine ⟨b, m', (exitOrder.flatMap m).length, fun fuel hfuel => notifyExitToLists_mono hfuel hb,
    fun l x hx => ⟨hdone l (mem_exitOrder l) x hx, ?_⟩, hrest⟩
  obtain ⟨l', hl'⟩ := (hlisted x).mpr ⟨l, hx⟩
  exact ⟨l', hl', fun k hk => hrest.lists.disjoint hk hl'⟩

/-- 五種類の session。0 は時間切れを待つ single shot、1 は poll の取り消しを待つ single shot、
2 は active な multi shot、3 と 4 は coroutine である。 -/
def restingSession : Nat → Session
  | 0 => { magic := true, sessionType := .socketCb, lc := .single .windedUp, fd := 7, timeouts := 5 }
  | 1 => { magic := true, sessionType := .socketCb, lc := .single .waitForRemovedThenActive }
  | 2 => { magic := true, sessionType := .multiSocketCb, lc := .multi .active, fd := 8 }
  | 3 => { magic := true, sessionType := .mco }
  | 4 => { magic := true, sessionType := .mco }
  | _ => {}

/-- active list に 2 と 4、1 秒から 10 秒の list に 0、no time の list に 3 と 1 がいる。 -/
def restingLists : WorkerList → List Nat
  | .active => [2, 4]
  | .of1sTo10s => [0]
  | .ofNoTime => [3, 1]
  | _ => []

def restingWorker : McoWorker where
  worker := { Worker.init with
    session := restingSession
    links := {
      prev := fun x => if x = 4 then some 2 else if x = 1 then some 3 else none
      next := fun x => if x = 2 then some 4 else if x = 3 then some 1 else none }
    ends := fun l => { head := (restingLists l).head?, tail := (restingLists l).getLast? } }
  lc := fun x => if x = 3 then .windedUp else .active

theorem restingWorker_atRest : AtRest restingWorker restingLists where
  lists := by
    refine ⟨fun l => ?_, fun {i j x} => ?_⟩
    · cases l with
      | active => exact ⟨⟨rfl, rfl, rfl⟩, ⟨rfl, rfl, rfl⟩⟩
      | of1sTo10s => exact ⟨⟨rfl, rfl⟩, ⟨rfl, rfl⟩⟩
      | ofNoTime => exact ⟨⟨rfl, rfl, rfl⟩, ⟨rfl, rfl, rfl⟩⟩
      | _ => exact ⟨rfl, rfl⟩
    · cases i <;> cases j <;> simp only [restingLists, List.mem_cons, List.not_mem_nil, or_false,
        implies_true, false_imp_iff] <;> omega
  magic := by
    intro l x hx
    cases l <;> simp only [restingLists, List.mem_cons, List.not_mem_nil, or_false] at hx
    all_goals rcases hx with rfl | rfl <;> rfl
  rests := by
    intro l x hx
    cases l with
    | active =>
      rcases List.mem_pair.mp hx with rfl | rfl
      · exact .multiActive rfl rfl
      · exact .mcoActive rfl rfl
    | of1sTo10s =>
      obtain rfl := List.mem_singleton.mp hx
      exact .singleWindedUp (s := restingSession 0) rfl rfl
    | ofNoTime =>
      rcases List.mem_pair.mp hx with rfl | rfl
      · exact .mcoWindedUp (s := restingSession 3) rfl rfl
      · exact .singleRemoving rfl rfl
    | _ => cases hx

/-- 三つの list に五つの session がいるとき。 -/
theorem exit_broadcast_sample :
    ∃ b m' enough, (∀ fuel, enough ≤ fuel →
        esqWorkerNotifyExitToAllSessions (fun _ => 0) fuel restingWorker = .ok b)
      ∧ (∀ l, ∀ x ∈ restingLists l, x ∈ b.delivered ∧ ∃! l', x ∈ m' l') ∧ AtRest b.mw m' :=
  exit_broadcast _ restingWorker restingLists restingWorker_atRest

end Esq
