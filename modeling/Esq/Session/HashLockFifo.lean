import Esq.Session.HashLock

/-!
# hash lock は先着順の読み書きロックである

要求と解放を記録する `LockHistory` を横に置き、`HashLocks` の番地のつながりと比べる。

* `outstanding idx` — まだ解放されていない要求を、到着順に並べたもの
* `held idx` — `ESQ_OK` を受け取ったか、wake-up list に繋がれた要求

不変量（`LockInv`）は「`ctx_head` からの列が `outstanding` に等しく、
`held` がその `granted` に等しい」である。

これを保たない解放が二つある（`ReleaseSafe` がどちらも除く）。

1. 後ろに要求の無い読みの解放。先頭なら `p->next->state` で落ち、
   途中なら `ctx_tail` が外した ctx を指したまま残る。
2. 解放で起こす要求の ctx が、前に起こされたときの wake-up list にまだ残っている場合。
   埋め込みの欄が再び使われるとこうなり、繋ぎ直しで list の後ろが失われる。
-/

namespace Esq

open Infra

/-! ## 要求の記録 -/

structure LockRequest where
  session : Nat
  state : HashLockState
  workerCtx : Nat
deriving DecidableEq, Repr

def LockRequest.isWrite (r : LockRequest) : Bool := r.state = .write

def HashLocks.request (s : HashLocks) (a : CtxAddr) : LockRequest where
  session := (s.ctx a).session.getD 0
  state := (s.ctx a).state
  workerCtx := (s.ctx a).workerCtx

structure LockHistory where
  outstanding : Int → List LockRequest
  held : Int → List LockRequest

def LockHistory.init : LockHistory where
  outstanding _ := []
  held _ := []

/-- 要求が戻り値 `code` で返ったことを記録する。 -/
def LockHistory.fetched (h : LockHistory) (idx : Int) (r : LockRequest) (code : Int) :
    LockHistory :=
  if code = esqOk then
    { outstanding := Function.update h.outstanding idx (h.outstanding idx ++ [r])
      held := Function.update h.held idx (h.held idx ++ [r]) }
  else if code = esqErrorBusy then
    { h with outstanding := Function.update h.outstanding idx (h.outstanding idx ++ [r]) }
  else h

def LockHistory.released (h : LockHistory) (idx : Int) (session : Nat)
    (woken : List LockRequest) : LockHistory where
  outstanding := Function.update h.outstanding idx
    ((h.outstanding idx).filter fun r => r.session ≠ session)
  held := Function.update h.held idx
    (((h.held idx).filter fun r => r.session ≠ session) ++ woken)

structure LockRun where
  locks : HashLocks
  history : LockHistory

def LockRun.init (serverStopFlag : Bool) : LockRun where
  locks := HashLocks.init serverStopFlag
  history := LockHistory.init

/-- 要求、解放、worker による wake-up list からの取り出し。 -/
inductive LockOp where
  | fetch (session : Nat) (state : HashLockState) (idx : Int) (workerCtx : Nat) (mallocOk : Bool)
  | release (session : Nat) (idx : Int)
  | pickUp (workerCtx : Nat)
deriving DecidableEq, Repr

def lockStep (s : LockRun) : LockOp → Option LockRun
  | .fetch session state idx workerCtx mallocOk =>
    match esqTryFetchHashLock s.locks session state idx workerCtx mallocOk with
    | .error _ => none
    | .ok (code, locks) =>
      some { locks, history := s.history.fetched idx ⟨session, state, workerCtx⟩ code }
  | .release session idx =>
    match esqHashLockRelease s.locks session idx with
    | .error _ => none
    | .ok r =>
      some { locks := r.locks,
             history := s.history.released idx session (r.woken.map s.locks.request) }
  | .pickUp workerCtx =>
    match esqWorkerPickUpFromLocalWakeUpList s.locks workerCtx with
    | .error _ => none
    | .ok (_, locks) => some { s with locks }

/-! ## 解放の条件 -/

def HashLocks.isWrite (s : HashLocks) (a : CtxAddr) : Bool := (s.ctx a).state = .write

theorem isRead_iff {state : HashLockState} : state = .read ↔ ¬ state = .write := by
  cases state <;> simp

def OnWakeUpList (s : HashLocks) (a : CtxAddr) : Prop :=
  ∃ w ws, Linked s.nextInLocalWakeUpList (s.wakeUpList w).head ws ∧ a ∈ ws

/-- `session` が抜けると新しくロックを持つことになる ctx。 -/
def HashLocks.nextHolders (s : HashLocks) (session : Nat) (idx : Int) : List CtxAddr :=
  (granted s.isWrite ((s.queue idx).filter fun p => (s.ctx p).session ≠ some session)).filter
    fun p => p ∉ granted s.isWrite (s.queue idx)

/--
解放が正しく終わるための、解放前の状態の条件。

解放する要求は書きであるか、行列の中で後ろに別の要求を持つ。
そして解放で起こす要求は、どの wake-up list にも残っていない。
-/
structure ReleaseSafe (s : HashLocks) (session : Nat) (idx : Int) : Prop where
  followed : ∀ p ∈ s.queue idx, (s.ctx p).session = some session →
    (s.ctx p).state = .write ∨ s.next p ≠ none
  drained : ∀ p ∈ s.nextHolders session idx, ¬ OnWakeUpList s p

def LockStepSafe (s : LockRun) : LockOp → Prop
  | .release session idx => ReleaseSafe s.locks session idx
  | _ => True

/-! ## 不変量 -/

/-- malloc 済みの番地である。埋め込みの欄は初めからある。 -/
def CtxAddr.Allocated (brk : Nat) : CtxAddr → Prop
  | .slot _ _ => True
  | .heap n => n < brk

/-- `qs idx` は `ctx_head` からの列、`ws w` は worker `w` の wake-up list である。 -/
structure QueueInv (s : HashLocks) (qs : Int → List CtxAddr) (ws : Nat → List CtxAddr) :
    Prop where
  queue : IsQueueFamily s.next s.lock qs
  wake : IsQueueFamily s.nextInLocalWakeUpList s.wakeUpList ws
  live : ∀ idx, ∀ a ∈ qs idx, (s.ctx a).session ≠ none
  sessions : ∀ idx, ((qs idx).map fun a => (s.ctx a).session).Nodup
  range : ∀ idx, qs idx ≠ [] → 0 ≤ idx ∧ idx < hashLockMax
  length : ∀ idx, (qs idx).length ≤ s.allocated
  wakeAllocated : ∀ w, ∀ a ∈ ws w, a.Allocated s.brk
  heapFree : ∀ n, s.brk ≤ n → (s.ctx (.heap n)).session = none

structure LockInv (s : LockRun) (qs : Int → List CtxAddr) (ws : Nat → List CtxAddr) : Prop
    extends QueueInv s.locks qs ws where
  requests : ∀ idx, s.history.outstanding idx = (qs idx).map s.locks.request
  held : ∀ idx, s.history.held idx = granted LockRequest.isWrite (s.history.outstanding idx)

theorem lockInv_init (b : Bool) : LockInv (LockRun.init b) (fun _ => []) (fun _ => []) where
  queue := ⟨fun _ => isQueue_empty, fun h => by simp at h⟩
  wake := ⟨fun _ => isQueue_empty, fun h => by simp at h⟩
  live _ _ h := by simp at h
  sessions _ := by simp
  range _ h := absurd rfl h
  length _ := by simp
  wakeAllocated _ _ h := by simp at h
  heapFree _ _ := rfl
  requests _ := rfl
  held _ := rfl

section

variable {s t : HashLocks} {qs : Int → List CtxAddr} {ws : Nat → List CtxAddr} {a p : CtxAddr}
  {idx : Int}

theorem QueueInv.queue_eq (h : QueueInv s qs ws) (idx : Int) : s.queue idx = qs idx :=
  (h.queue.queue idx).1.walk_eq (h.length idx)

theorem QueueInv.notMem_of_free (h : QueueInv s qs ws) (ha : (s.ctx a).session = none)
    (idx : Int) : a ∉ qs idx := fun hm => h.live idx a hm ha

theorem QueueInv.eq_of_session (h : QueueInv s qs ws) (ha : a ∈ qs idx) (hp : p ∈ qs idx)
    (he : (s.ctx a).session = (s.ctx p).session) : a = p :=
  List.inj_on_of_nodup_map (h.sessions idx) ha hp he

theorem QueueInv.congr (h : QueueInv s qs ws) (hqueue : IsQueueFamily t.next t.lock qs)
    (hwake : IsQueueFamily t.nextInLocalWakeUpList t.wakeUpList ws)
    (hctx : ∀ idx, ∀ a ∈ qs idx, t.ctx a = s.ctx a) (hbrk : s.brk ≤ t.brk)
    (hall : s.allocated ≤ t.allocated)
    (hfree : ∀ n, t.brk ≤ n → (t.ctx (.heap n)).session = none) : QueueInv t qs ws where
  queue := hqueue
  wake := hwake
  live idx a ha := by
    rw [hctx idx a ha]
    exact h.live idx a ha
  sessions idx := by
    rw [List.map_congr_left fun a ha => congrArg HashLockCtx.session (hctx idx a ha)]
    exact h.sessions idx
  range := h.range
  length idx := (h.length idx).trans hall
  wakeAllocated w a ha := by
    have := h.wakeAllocated w a ha
    cases a with
    | slot session i => trivial
    | heap n => exact lt_of_lt_of_le this hbrk
  heapFree := hfree

end

/-! ## 要求の step -/

section

variable {s t : HashLocks} {qs : Int → List CtxAddr} {ws : Nat → List CtxAddr} {a p : CtxAddr}
  {idx : Int} {session : Nat} {b : Bool}

structure Prepared (s t : HashLocks) (a : CtxAddr) (c : HashLockCtx) : Prop where
  free : (s.ctx a).session = none
  ctx : t.ctx = Function.update s.ctx a c
  next : ∀ x, x ≠ a → t.next x = s.next x
  wakeNext : ∀ x, x.Allocated s.brk → t.nextInLocalWakeUpList x = s.nextInLocalWakeUpList x
  lock : t.lock = s.lock
  wakeUpList : t.wakeUpList = s.wakeUpList
  brk : s.brk ≤ t.brk
  allocated : t.allocated = s.allocated + 1
  fresh : a.Allocated t.brk

theorem prepared_of_alloc (state : HashLockState) (idx : Int) (w : Nat)
    (hfree : ∀ n, s.brk ≤ n → (s.ctx (.heap n)).session = none)
    (h : esqAllocHashLockCtx s session b = some (a, t)) :
    Prepared s (t.setCtx a { t.ctx a with state := state, idx := idx, workerCtx := w }) a
      { state := state, idx := idx, session := some session, workerCtx := w } := by
  unfold esqAllocHashLockCtx at h
  split at h
  · next i hi =>
    have hnone := List.find?_some hi
    obtain ⟨rfl, rfl⟩ := Prod.mk.inj (Option.some.inj h)
    constructor <;> simp_all [HashLocks.setCtx, CtxAddr.Allocated]
  · split at h
    · obtain ⟨rfl, rfl⟩ := Prod.mk.inj (Option.some.inj h)
      constructor
      case free => exact hfree _ le_rfl
      case wakeNext =>
        intro x hx
        refine Function.update_of_ne ?_ _ _
        rintro rfl
        exact absurd hx (Nat.lt_irrefl _)
      case fresh => exact Nat.lt_succ_self _
      case next => exact fun x hx => Function.update_of_ne hx _ _
      all_goals simp [HashLocks.setCtx]
    · exact absurd h (by simp)

theorem Prepared.ctx_of_ne {c : HashLockCtx} (hp : Prepared s t a c) {x : CtxAddr} (hx : x ≠ a) :
    t.ctx x = s.ctx x := by
  rw [hp.ctx, Function.update_of_ne hx]

theorem QueueInv.prepare {c : HashLockCtx} (h : QueueInv s qs ws) (hp : Prepared s t a c) :
    QueueInv t qs ws := by
  have hne : ∀ idx, ∀ x ∈ qs idx, x ≠ a := by
    rintro idx x hx rfl
    exact h.notMem_of_free hp.free idx hx
  refine h.congr ?_ ?_ (fun idx x hx => hp.ctx_of_ne (hne idx x hx)) hp.brk ?_ ?_
  · rw [hp.lock]
    exact h.queue.congr fun idx x hx => hp.next x (hne idx x hx)
  · rw [hp.wakeUpList]
    exact h.wake.congr fun w x hx => hp.wakeNext x (h.wakeAllocated w x hx)
  · rw [hp.allocated]
    omega
  · intro n hn
    rw [hp.ctx_of_ne]
    · exact h.heapFree n (hp.brk.trans hn)
    · rintro rfl
      exact absurd hp.fresh (Nat.not_lt.mpr hn)

/-- `CTX_JOIN_TAIL` か `CTX_JOIN_AS_THE_FIRST` で末尾に足し、`JOIN_SESSION` した状態。 -/
structure Enqueued (s t : HashLocks) (qs : Int → List CtxAddr) (idx : Int) (a : CtxAddr) :
    Prop where
  queue : IsQueueFamily t.next t.lock (Function.update qs idx (qs idx ++ [a]))
  ctx : t.ctx = s.ctx
  wakeNext : t.nextInLocalWakeUpList = s.nextInLocalWakeUpList
  wakeUpList : t.wakeUpList = s.wakeUpList
  brk : t.brk = s.brk
  allocated : t.allocated = s.allocated

theorem Enqueued.joinSession {t : HashLocks} (h : Enqueued s t qs idx a) :
    Enqueued s (joinSession t a) qs idx a := by
  unfold Esq.joinSession
  split
  · exact h
  · exact ⟨h.queue, h.ctx, h.wakeNext, h.wakeUpList, h.brk, h.allocated⟩

theorem QueueInv.enqueued (h : QueueInv s qs ws) (ha : ∀ j, a ∉ qs j) (idx : Int) :
    (qs idx = [] ∧ (s.lock idx).head = none ∧ Enqueued s (ctxJoinAsTheFirst s idx a) qs idx a) ∨
    (qs idx ≠ [] ∧ (∃ p, (s.lock idx).head = some p) ∧
      ∃ t, ctxJoinTail s idx a = .ok t ∧ Enqueued s t qs idx a) := by
  obtain ⟨next', d', hpush, hfam⟩ := h.queue.push (i := idx) ha
  have hnil := (h.queue.queue idx).1.eq_none_iff
  unfold push at hpush
  cases hh : (s.lock idx).head with
  | none =>
    rw [hh] at hpush
    obtain ⟨rfl, rfl⟩ := Prod.mk.inj (Option.some.inj hpush)
    exact Or.inl ⟨hnil.mp hh, rfl, ⟨hfam, rfl, rfl, rfl, rfl, rfl⟩⟩
  | some p =>
    rw [hh] at hpush hnil
    refine Or.inr ⟨fun he => absurd (hnil.mpr he) (by simp), ⟨p, rfl⟩, ?_⟩
    cases ht : (s.lock idx).tail with
    | none => simp [ht] at hpush
    | some q =>
      simp only [ht] at hpush
      refine ⟨_, by rw [ctxJoinTail, ht], ?_⟩
      obtain ⟨rfl, rfl⟩ := Prod.mk.inj (Option.some.inj hpush)
      exact ⟨hfam, rfl, rfl, rfl, rfl, rfl⟩

theorem QueueInv.tryRead (h : QueueInv s qs ws) (ha : ∀ j, a ∉ qs j) (idx : Int) :
    ∃ t, esqTryReadHashLock s idx a
        = .ok (if ∀ y ∈ qs idx, s.isWrite y = false then esqOk else esqErrorBusy, t) ∧
      Enqueued s t qs idx a := by
  unfold esqTryReadHashLock
  rcases h.enqueued ha idx with ⟨hnil, hh, he⟩ | ⟨-, ⟨p, hh⟩, t, ht, he⟩
  · refine ⟨_, ?_, he.joinSession⟩
    rw [hh, hnil]
    simp
  · refine ⟨joinSession t a, ?_, he.joinSession⟩
    rw [hh, h.queue_eq]
    simp only [ht, ok_bind]
    by_cases hall : ∀ y ∈ qs idx, s.isWrite y = false
    · rw [if_pos hall, if_pos]
      simpa [HashLocks.isWrite, isRead_iff] using hall
    · rw [if_neg hall, if_neg]
      simpa [HashLocks.isWrite, isRead_iff] using hall

theorem QueueInv.tryWrite (h : QueueInv s qs ws) (ha : ∀ j, a ∉ qs j) (idx : Int) :
    ∃ t, esqTryWriteHashLock s idx a = .ok (if qs idx = [] then esqOk else esqErrorBusy, t) ∧
      Enqueued s t qs idx a := by
  unfold esqTryWriteHashLock
  rcases h.enqueued ha idx with ⟨hnil, hh, he⟩ | ⟨hne, ⟨p, hh⟩, t, ht, he⟩
  · refine ⟨_, ?_, he.joinSession⟩
    rw [hh, if_pos hnil]
  · refine ⟨joinSession t a, ?_, he.joinSession⟩
    rw [hh, if_neg hne]
    simp only [ht, ok_bind]

theorem QueueInv.enqueue (h : QueueInv s qs ws) (he : Enqueued s t qs idx a)
    (hidx : 0 ≤ idx ∧ idx < hashLockMax) (hlive : (s.ctx a).session ≠ none)
    (hnew : ∀ p ∈ qs idx, (s.ctx p).session ≠ (s.ctx a).session)
    (hlen : (qs idx).length < s.allocated) :
    QueueInv t (Function.update qs idx (qs idx ++ [a])) ws where
  queue := he.queue
  wake := by
    rw [he.wakeNext, he.wakeUpList]
    exact h.wake
  live := by
    intro j x hx
    rw [he.ctx]
    by_cases hj : j = idx
    · subst hj
      rw [Function.update_self, List.mem_append, List.mem_singleton] at hx
      rcases hx with hx | rfl
      · exact h.live j x hx
      · exact hlive
    · rw [Function.update_of_ne hj] at hx
      exact h.live j x hx
  sessions := by
    intro j
    rw [he.ctx]
    by_cases hj : j = idx
    · subst hj
      rw [Function.update_self, List.map_append, List.map_singleton]
      refine List.nodup_append.mpr ⟨h.sessions j, List.nodup_singleton _, ?_⟩
      intro x hx y hy hxy
      obtain ⟨p, hp, rfl⟩ := List.mem_map.mp hx
      exact hnew p hp (hxy.trans (List.mem_singleton.mp hy))
    · rw [Function.update_of_ne hj]
      exact h.sessions j
  range := by
    intro j hne
    by_cases hj : j = idx
    · exact hj ▸ hidx
    · rw [Function.update_of_ne hj] at hne
      exact h.range j hne
  length := by
    intro j
    rw [he.allocated]
    by_cases hj : j = idx
    · subst hj
      rw [Function.update_self, List.length_append, List.length_singleton]
      omega
    · rw [Function.update_of_ne hj]
      exact h.length j
  wakeAllocated := by
    rw [he.brk]
    exact h.wakeAllocated
  heapFree := by
    rw [he.brk, he.ctx]
    exact h.heapFree

end

section

variable {s : LockRun} {t : HashLocks} {qs : Int → List CtxAddr} {ws : Nat → List CtxAddr}
  {a : CtxAddr} {idx : Int}

theorem LockHistory.fetched_spec (h : LockHistory) (r : LockRequest)
    (hheld : ∀ j, h.held j = granted LockRequest.isWrite (h.outstanding j)) {code : Int}
    (hcode : code = if h.outstanding idx = [] ∨
        (r.isWrite = false ∧ ∀ y ∈ h.outstanding idx, y.isWrite = false)
      then esqOk else esqErrorBusy) (j : Int) :
    (h.fetched idx r code).outstanding j
        = Function.update h.outstanding idx (h.outstanding idx ++ [r]) j ∧
      (h.fetched idx r code).held j
        = granted LockRequest.isWrite ((h.fetched idx r code).outstanding j) := by
  have hgrant := granted_append_singleton (w := LockRequest.isWrite) (x := r)
    (q := h.outstanding idx)
  unfold LockHistory.fetched
  split at hcode
  · next hc =>
    rw [if_pos hc] at hgrant
    rw [if_pos hcode]
    refine ⟨rfl, ?_⟩
    by_cases hj : j = idx
    · subst hj
      simp only [Function.update_self]
      rw [hgrant, hheld]
    · simp only [Function.update_of_ne hj]
      exact hheld j
  · next hc =>
    rw [if_neg hc, List.append_nil] at hgrant
    rw [if_neg (by rw [hcode]; decide), if_pos hcode]
    refine ⟨rfl, ?_⟩
    by_cases hj : j = idx
    · subst hj
      simp only [Function.update_self]
      rw [hgrant, hheld]
    · simp only [Function.update_of_ne hj]
      exact hheld j

theorem LockInv.enqueue {s2 : HashLocks} {c : HashLockCtx} {session : Nat} {code : Int}
    (h : LockInv s qs ws) (hp : Prepared s.locks s2 a c) (he : Enqueued s2 t qs idx a)
    (hidx : 0 ≤ idx ∧ idx < hashLockMax) (hsession : c.session = some session)
    (hnew : ∀ p ∈ qs idx, (s2.ctx p).session ≠ some session)
    (hcode : code = if qs idx = [] ∨
        (s2.isWrite a = false ∧ ∀ y ∈ qs idx, s2.isWrite y = false)
      then esqOk else esqErrorBusy) :
    LockInv { locks := t, history := s.history.fetched idx ⟨session, c.state, c.workerCtx⟩ code }
      (Function.update qs idx (qs idx ++ [a])) ws := by
  have hca : s2.ctx a = c := by rw [hp.ctx, Function.update_self]
  have hne : ∀ j, ∀ x ∈ qs j, x ≠ a := by
    rintro j x hx rfl
    exact h.notMem_of_free hp.free j hx
  have hreq : ∀ j, (qs j).map t.request = s.history.outstanding j := by
    intro j
    rw [h.requests]
    refine List.map_congr_left fun x hx => ?_
    rw [HashLocks.request, he.ctx, hp.ctx_of_ne (hne j x hx)]
    rfl
  have hra : t.request a = ⟨session, c.state, c.workerCtx⟩ := by
    rw [HashLocks.request, he.ctx, hca, hsession]
    rfl
  have hcond : code = if s.history.outstanding idx = [] ∨
      ((⟨session, c.state, c.workerCtx⟩ : LockRequest).isWrite = false ∧
        ∀ y ∈ s.history.outstanding idx, y.isWrite = false) then esqOk else esqErrorBusy := by
    rw [hcode]
    refine if_congr ?_ rfl rfl
    rw [← hreq idx, ← hra]
    simp [LockRequest.isWrite, HashLocks.isWrite, HashLocks.request, he.ctx]
  have hspec := s.history.fetched_spec ⟨session, c.state, c.workerCtx⟩ h.held hcond
  constructor
  · refine (h.toQueueInv.prepare hp).enqueue he hidx (by simp [hca, hsession]) ?_ ?_
    · rw [hca, hsession]
      exact hnew
    · rw [hp.allocated]
      exact Nat.lt_succ_of_le (h.length idx)
  · intro j
    rw [(hspec j).1]
    by_cases hj : j = idx
    · subst hj
      simp only [Function.update_self]
      rw [List.map_append, List.map_singleton, hreq, hra]
    · simp only [Function.update_of_ne hj]
      exact (hreq j).symm
  · exact fun j => (hspec j).2

theorem esqAllocHashLockCtx_addr {s : HashLocks} {session : Nat} {b : Bool}
    (h : esqAllocHashLockCtx s session b = some (a, t)) :
    (∀ z i, a = .slot z i → z = session) ∧
      (b = true ∨ ∃ i, (s.ctx (.slot session i)).session = none) := by
  unfold esqAllocHashLockCtx at h
  split at h
  · next i hi =>
    have hnone := List.find?_some hi
    obtain ⟨rfl, -⟩ := Prod.mk.inj (Option.some.inj h)
    refine ⟨fun z k he => ?_, Or.inr ⟨i, Option.isNone_iff_eq_none.mp hnone⟩⟩
    cases he
    rfl
  · split at h
    · next hb =>
      obtain ⟨rfl, -⟩ := Prod.mk.inj (Option.some.inj h)
      exact ⟨nofun, Or.inl hb⟩
    · cases h

theorem esqTryFetchHashLock_cases {s : HashLocks} {session w : Nat} {state : HashLockState}
    {b : Bool} {code : Int} (h : esqTryFetchHashLock s session state idx w b = .ok (code, t)) :
    (t = s ∧ (code = esqErrorClose ∨ code = esqErrorMemory)) ∨
    ∃ a s1, (0 ≤ idx ∧ idx < hashLockMax) ∧ s.serverStopFlag = false ∧
      esqAllocHashLockCtx s session b = some (a, s1) ∧
      let s2 := s1.setCtx a { s1.ctx a with state := state, idx := idx, workerCtx := w }
      esqHashLockCheckDup s2 idx a = .ok () ∧
        ((state = .read ∧ esqTryReadHashLock s2 idx a = .ok (code, t)) ∨
          (state = .write ∧ esqTryWriteHashLock s2 idx a = .ok (code, t))) := by
  unfold esqTryFetchHashLock at h
  split at h
  · simp at h
  next hidx =>
  split at h
  · obtain ⟨rfl, rfl⟩ := Prod.mk.inj (Except.ok.inj h)
    exact Or.inl ⟨rfl, Or.inl rfl⟩
  next hrunning =>
  split at h
  · obtain ⟨rfl, rfl⟩ := Prod.mk.inj (Except.ok.inj h)
    exact Or.inl ⟨rfl, Or.inr rfl⟩
  next a s1 halloc =>
  obtain ⟨⟨⟩, hdup, h⟩ := bind_eq_ok.mp h
  refine Or.inr ⟨a, s1, by omega, Bool.eq_false_iff.mpr hrunning, halloc, hdup, ?_⟩
  cases state with
  | read => exact Or.inl ⟨rfl, h⟩
  | write => exact Or.inr ⟨rfl, h⟩

theorem not_dup_of_check {s : HashLocks} (h : esqHashLockCheckDup s idx a = .ok ()) :
    ∀ p ∈ s.queue idx, (s.ctx p).session ≠ (s.ctx a).session := by
  unfold esqHashLockCheckDup at h
  split at h
  · simp at h
  · next hd =>
    intro p hp he
    exact hd (List.any_eq_true.mpr ⟨p, hp, by simp [he]⟩)

/-- 行列に足した要求。`c` は確保した ctx の欄、`code` は戻り値である。 -/
structure Joined (s t : HashLocks) (qs : Int → List CtxAddr) (idx : Int) (session : Nat) (b : Bool)
    (c : HashLockCtx) (code : Int) (a : CtxAddr) (s2 : HashLocks) : Prop where
  prepared : Prepared s s2 a c
  enqueued : Enqueued s2 t qs idx a
  range : 0 ≤ idx ∧ idx < hashLockMax
  running : s.serverStopFlag = false
  slot : ∀ z i, a = .slot z i → z = session
  alloc : b = true ∨ ∃ i, (s.ctx (.slot session i)).session = none
  new : ∀ p ∈ qs idx, (s2.ctx p).session ≠ some session
  code_eq : code = if qs idx = [] ∨ (s2.isWrite a = false ∧ ∀ y ∈ qs idx, s2.isWrite y = false)
    then esqOk else esqErrorBusy

/-- **要求は、ctx に触れずに断られるか、行列の末尾に足される。** -/
theorem QueueInv.fetch {s : HashLocks} {session w : Nat} {state : HashLockState} {b : Bool}
    {code : Int} (h : QueueInv s qs ws)
    (hf : esqTryFetchHashLock s session state idx w b = .ok (code, t)) :
    (t = s ∧ (code = esqErrorClose ∨ code = esqErrorMemory)) ∨
    ∃ a s2, Joined s t qs idx session b
      { state := state, idx := idx, session := some session, workerCtx := w } code a s2 := by
  rcases esqTryFetchHashLock_cases hf with hc | ⟨a, s1, hidx, hrun, halloc, hdup, hjoin⟩
  · exact Or.inl hc
  obtain ⟨hslot, hfree⟩ := esqAllocHashLockCtx_addr halloc
  have hp := prepared_of_alloc state idx w h.heapFree halloc
  simp only at hdup hjoin
  generalize s1.setCtx a { s1.ctx a with state := state, idx := idx, workerCtx := w } = s2
    at hp hdup hjoin
  have hq2 := h.prepare hp
  have ha := h.notMem_of_free hp.free
  have hca := congrFun hp.ctx a
  rw [Function.update_self] at hca
  have hnew := not_dup_of_check hdup
  rw [hq2.queue_eq, hca] at hnew
  rcases hjoin with ⟨rfl, hr⟩ | ⟨rfl, hw⟩
  · obtain ⟨t', ht', he⟩ := hq2.tryRead ha idx
    obtain ⟨rfl, rfl⟩ := Prod.mk.inj (Except.ok.inj (ht'.symm.trans hr))
    refine Or.inr ⟨a, s2, hp, he, hidx, hrun, hslot, hfree, hnew, if_congr ?_ rfl rfl⟩
    simp only [HashLocks.isWrite, hca]
    constructor
    · exact fun hall => Or.inr ⟨rfl, hall⟩
    · rintro (hnil | hall)
      · simp [hnil]
      · exact hall.2
  · obtain ⟨t', ht', he⟩ := hq2.tryWrite ha idx
    obtain ⟨rfl, rfl⟩ := Prod.mk.inj (Except.ok.inj (ht'.symm.trans hw))
    refine Or.inr ⟨a, s2, hp, he, hidx, hrun, hslot, hfree, hnew, if_congr ?_ rfl rfl⟩
    simp [HashLocks.isWrite, hca]

theorem LockInv.fetch {u : LockRun} {session w : Nat} {state : HashLockState} {b : Bool}
    (h : LockInv s qs ws) (hs : lockStep s (.fetch session state idx w b) = some u) :
    ∃ qs', LockInv u qs' ws := by
  rw [lockStep] at hs
  split at hs
  · simp at hs
  next code t hfetch =>
  obtain rfl := Option.some.inj hs
  rcases h.toQueueInv.fetch hfetch with ⟨rfl, hc⟩ | ⟨a, s2, hj⟩
  · -- 断られた要求は記録にも残らない
    refine ⟨qs, ?_⟩
    have : s.history.fetched idx ⟨session, state, w⟩ code = s.history := by
      rcases hc with rfl | rfl <;> rfl
    rw [this]
    exact h
  · exact ⟨_, h.enqueue hj.prepared hj.enqueued hj.range rfl hj.new hj.code_eq⟩

end

/-! ## 起こす -/

def wokenLists (s : HashLocks) (ws : Nat → List CtxAddr) (xs : List CtxAddr) :
    Nat → List CtxAddr :=
  fun w => ws w ++ xs.filter fun p => (s.ctx p).workerCtx = w

section

variable {s t : HashLocks} {qs : Int → List CtxAddr} {ws : Nat → List CtxAddr} {a p : CtxAddr}
  {idx : Int}

theorem wokenLists_nil : wokenLists s ws [] = ws := by
  funext w
  simp [wokenLists]

theorem wokenLists_cons (p : CtxAddr) (xs : List CtxAddr) :
    wokenLists s (Function.update ws (s.ctx p).workerCtx (ws (s.ctx p).workerCtx ++ [p])) xs
      = wokenLists s ws (p :: xs) := by
  funext w
  unfold wokenLists
  by_cases hw : (s.ctx p).workerCtx = w
  · subst hw
    simp
  · rw [Function.update_of_ne (Ne.symm hw)]
    simp [hw]

theorem hashLockCtxJoinWorkCtx_spec
    (h : IsQueueFamily s.nextInLocalWakeUpList s.wakeUpList ws) (hp : ∀ w, p ∉ ws w) :
    ∃ n l, hashLockCtxJoinWorkCtx s p
        = .ok { s with nextInLocalWakeUpList := n, wakeUpList := l } ∧
      IsQueueFamily n l
        (Function.update ws (s.ctx p).workerCtx (ws (s.ctx p).workerCtx ++ [p])) := by
  obtain ⟨n, d, hpush, hfam⟩ := h.push (i := (s.ctx p).workerCtx) hp
  refine ⟨n, _, ?_, hfam⟩
  unfold hashLockCtxJoinWorkCtx
  simp only [hpush]

theorem joinReaders_spec : ∀ (xs : List CtxAddr) (s : HashLocks) (ws : Nat → List CtxAddr),
    IsQueueFamily s.nextInLocalWakeUpList s.wakeUpList ws → xs.Nodup →
    (∀ x ∈ xs.takeWhile (fun y => !s.isWrite y), ∀ w, x ∉ ws w) →
    ∃ n l, joinReaders s xs
        = .ok ({ s with nextInLocalWakeUpList := n, wakeUpList := l },
            xs.takeWhile fun y => !s.isWrite y) ∧
      IsQueueFamily n l (wokenLists s ws (xs.takeWhile fun y => !s.isWrite y))
  | [], s, ws, h, _, _ => by
    refine ⟨s.nextInLocalWakeUpList, s.wakeUpList, rfl, ?_⟩
    rw [List.takeWhile_nil, wokenLists_nil]
    exact h
  | p :: rest, s, ws, h, hnd, hout => by
    rw [joinReaders]
    cases hst : (s.ctx p).state with
    | write =>
      have hw : s.isWrite p = true := by simp [HashLocks.isWrite, hst]
      refine ⟨s.nextInLocalWakeUpList, s.wakeUpList, by simp [hw], ?_⟩
      rw [List.takeWhile_cons_of_neg (by simp [hw]), wokenLists_nil]
      exact h
    | read =>
      have hr : s.isWrite p = false := by simp [HashLocks.isWrite, hst]
      have htake : (p :: rest).takeWhile (fun y => !s.isWrite y)
          = p :: rest.takeWhile fun y => !s.isWrite y := List.takeWhile_cons_of_pos (by simp [hr])
      rw [htake] at hout ⊢
      obtain ⟨n, l, hjoin, hfam⟩ := hashLockCtxJoinWorkCtx_spec h (hout p List.mem_cons_self)
      -- `p` 自身は残りの列に無いので、残りの要求はまだどの list にも無い
      have hrest : ∀ x ∈ rest.takeWhile (fun y => !s.isWrite y), ∀ w,
          x ∉ Function.update ws (s.ctx p).workerCtx (ws (s.ctx p).workerCtx ++ [p]) w := by
        intro x hx w hm
        have hxp : x ≠ p := by
          rintro rfl
          exact (List.nodup_cons.mp hnd).1 ((List.takeWhile_sublist _).subset hx)
        by_cases hw : w = (s.ctx p).workerCtx
        · subst hw
          rw [Function.update_self, List.mem_append, List.mem_singleton] at hm
          rcases hm with hm | hm
          · exact hout x (List.mem_cons_of_mem _ hx) _ hm
          · exact hxp hm
        · rw [Function.update_of_ne hw] at hm
          exact hout x (List.mem_cons_of_mem _ hx) w hm
      obtain ⟨n', l', hjoins, hfams⟩ := joinReaders_spec rest
        { s with nextInLocalWakeUpList := n, wakeUpList := l } _ hfam
        (List.nodup_cons.mp hnd).2 hrest
      refine ⟨n', l', ?_, ?_⟩
      · simp only [hjoin, ok_bind, hjoins]
        rfl
      · rw [← wokenLists_cons]
        exact hfams

/-- **新しく先頭になった要求のうち、許されるものがちょうど一度ずつ繋がれる。** -/
theorem esqHashLockCtxJoinLocalWakeUpList_spec {q : List CtxAddr} (hq : s.queue idx = q)
    (h : IsQueueFamily s.nextInLocalWakeUpList s.wakeUpList ws) (hnd : q.Nodup)
    (hout : ∀ x ∈ granted s.isWrite q, ∀ w, x ∉ ws w) :
    ∃ n l, esqHashLockCtxJoinLocalWakeUpList s idx
        = .ok ({ s with nextInLocalWakeUpList := n, wakeUpList := l }, granted s.isWrite q) ∧
      IsQueueFamily n l (wokenLists s ws (granted s.isWrite q)) := by
  unfold esqHashLockCtxJoinLocalWakeUpList
  rw [hq]
  cases q with
  | nil =>
    refine ⟨s.nextInLocalWakeUpList, s.wakeUpList, rfl, ?_⟩
    rw [granted_nil, wokenLists_nil]
    exact h
  | cons p rest =>
    cases hst : (s.ctx p).state with
    | read =>
      rw [granted_cons_read (by simp [HashLocks.isWrite, hst])] at hout ⊢
      simp only [hst]
      exact joinReaders_spec (p :: rest) s ws h hnd hout
    | write =>
      rw [granted_cons_write (by simp [HashLocks.isWrite, hst])] at hout ⊢
      obtain ⟨n, l, hjoin, hfam⟩ := hashLockCtxJoinWorkCtx_spec h (hout p List.mem_cons_self)
      refine ⟨n, l, by simp only [hst, hjoin, ok_bind], ?_⟩
      rw [← wokenLists_cons, wokenLists_nil]
      exact hfam

end

/-! ## 解放の step -/

/-- 行列から外した後の状態。`free` で ctx の session が空になる。 -/
structure Dequeued (s t : HashLocks) (qs : Int → List CtxAddr) (ws : Nat → List CtxAddr)
    (idx : Int) (p : CtxAddr) (q : List CtxAddr) (woken : List CtxAddr) : Prop where
  queue : IsQueueFamily t.next t.lock (Function.update qs idx q)
  wake : IsQueueFamily t.nextInLocalWakeUpList t.wakeUpList (wokenLists s ws woken)
  ctx : t.ctx = Function.update s.ctx p { s.ctx p with session := none }
  brk : t.brk = s.brk
  allocated : t.allocated = s.allocated

section

variable {s t : HashLocks} {qs : Int → List CtxAddr} {ws : Nat → List CtxAddr} {p : CtxAddr}
  {idx : Int} {pre post woken : List CtxAddr} {session : Nat}

theorem QueueInv.allocated_of_mem (h : QueueInv s qs ws) {a : CtxAddr} (ha : a ∈ qs idx) :
    a.Allocated s.brk := by
  cases a with
  | slot session i => trivial
  | heap n => exact Nat.lt_of_not_le fun hn => h.live idx _ ha (h.heapFree n hn)

theorem QueueInv.dequeue (h : QueueInv s qs ws) (hq : qs idx = pre ++ p :: post)
    (hd : Dequeued s t qs ws idx p (pre ++ post) woken) (hwoken : ∀ a ∈ woken, a ∈ qs idx) :
    QueueInv t (Function.update qs idx (pre ++ post)) (wokenLists s ws woken) := by
  have hsub : (pre ++ post).Sublist (qs idx) := by
    rw [hq]
    exact List.Sublist.append_left (List.sublist_cons_self _ _) _
  have hp : p ∉ pre ++ post := by
    have hnd := h.queue.nodup idx
    rw [hq] at hnd
    exact (List.nodup_middle.mp hnd).notMem
  -- 残った行列の ctx は変わらない
  have hctx : ∀ j, ∀ a ∈ Function.update qs idx (pre ++ post) j,
      a ∈ qs j ∧ t.ctx a = s.ctx a := by
    intro j a ha
    have hpq : p ∈ qs idx := by simp [hq]
    rw [hd.ctx]
    by_cases hj : j = idx
    · subst hj
      rw [Function.update_self] at ha
      refine ⟨hsub.subset ha, Function.update_of_ne ?_ _ _⟩
      rintro rfl
      exact hp ha
    · rw [Function.update_of_ne hj] at ha
      refine ⟨ha, Function.update_of_ne ?_ _ _⟩
      rintro rfl
      exact hj (h.queue.disjoint ha hpq)
  constructor
  · exact hd.queue
  · exact hd.wake
  · intro j a ha
    rw [(hctx j a ha).2]
    exact h.live j a (hctx j a ha).1
  · intro j
    rw [List.map_congr_left fun a ha => congrArg HashLockCtx.session (hctx j a ha).2]
    by_cases hj : j = idx
    · subst hj
      rw [Function.update_self]
      exact (h.sessions j).sublist (hsub.map _)
    · rw [Function.update_of_ne hj]
      exact h.sessions j
  · intro j hne
    by_cases hj : j = idx
    · subst hj
      exact h.range j (by simp [hq])
    · rw [Function.update_of_ne hj] at hne
      exact h.range j hne
  · intro j
    rw [hd.allocated]
    by_cases hj : j = idx
    · subst hj
      rw [Function.update_self]
      exact hsub.length_le.trans (h.length j)
    · rw [Function.update_of_ne hj]
      exact h.length j
  · intro w a ha
    rw [hd.brk]
    rcases List.mem_append.mp ha with ha | ha
    · exact h.wakeAllocated w a ha
    · exact h.allocated_of_mem (hwoken a (List.mem_of_mem_filter ha))
  · intro n hn
    rw [hd.brk] at hn
    rw [hd.ctx]
    by_cases he : CtxAddr.heap n = p
    · rw [he, Function.update_self]
    · rw [Function.update_of_ne he]
      exact h.heapFree n hn

theorem QueueInv.filter_session (h : QueueInv s qs ws) (hq : qs idx = pre ++ p :: post)
    (hp : (s.ctx p).session = some session) :
    (qs idx).filter (fun a => (s.ctx a).session ≠ some session) = pre ++ post := by
  have hnd := h.queue.nodup idx
  have hmem : p ∈ qs idx := by simp [hq]
  have hkeep : ∀ a ∈ qs idx, ((s.ctx a).session ≠ some session ↔ a ≠ p) := by
    intro a ha
    refine not_congr ⟨fun he => h.eq_of_session ha hmem (he.trans hp.symm), ?_⟩
    rintro rfl
    exact hp
  rw [List.filter_congr fun a ha => decide_eq_decide.mpr (hkeep a ha)]
  rw [hq] at hnd ⊢
  have hout := (List.nodup_middle.mp hnd).notMem
  rw [List.mem_append, not_or] at hout
  have hself : ∀ xs : List CtxAddr, p ∉ xs → xs.filter (fun a => a ≠ p) = xs := by
    intro xs hxs
    refine List.filter_eq_self.mpr fun a ha => ?_
    simpa using fun he : a = p => hxs (he ▸ ha)
  rw [List.filter_append, List.filter_cons_of_neg (by simp), hself pre hout.1, hself post hout.2]

theorem releaseRead_skip : ∀ (pre : List CtxAddr) (pp : Option CtxAddr),
    (∀ a ∈ pre, s.isWrite a = false ∧ (s.ctx a).session ≠ some session) →
    releaseRead s idx session pp (pre ++ post)
      = releaseRead s idx session (pre.getLast?.or pp) post
  | [], pp, _ => rfl
  | a :: pre, pp, h => by
    obtain ⟨hr, hne⟩ := h a List.mem_cons_self
    have hst : (s.ctx a).state = .read := by
      simpa [HashLocks.isWrite, isRead_iff] using hr
    simp only [List.cons_append, releaseRead, hst, if_neg hne]
    rw [releaseRead_skip pre (some a) fun b hb => h b (List.mem_cons_of_mem _ hb)]
    congr 1
    cases pre with
    | nil => rfl
    | cons b pre => simp [List.getLast?_cons]

/-! ### 行列から外す二つの道 -/

theorem QueueInv.setHead (h : QueueInv s qs ws) (hq : qs idx = p :: post) :
    IsQueueFamily s.next (s.setHead idx (s.next p)).lock (Function.update qs idx post) := by
  refine h.queue.replace ((hq ▸ h.queue.queue idx).advance) (fun _ _ _ _ => rfl) ?_
  intro j a hj ha hm
  exact hj (h.queue.disjoint hm (hq ▸ List.mem_cons_of_mem p ha))

theorem QueueInv.unlink {z : CtxAddr} (h : QueueInv s qs ws) (hq : qs idx = pre ++ p :: post)
    (hz : pre.getLast? = some z) (hne : post ≠ []) :
    IsQueueFamily (Function.update s.next z (s.next p)) s.lock
      (Function.update qs idx (pre ++ post)) := by
  have hzq : z ∈ qs idx := by
    rw [hq]
    exact List.mem_append_left _ (List.mem_of_getLast? hz)
  have hfam := h.queue.replace (i := idx) ((hq ▸ h.queue.queue idx).unlink hz hne)
    (fun j a hj ha => ?_) (fun j a hj ha hm => ?_)
  · rwa [Function.update_eq_self] at hfam
  · refine Function.update_of_ne ?_ _ _
    rintro rfl
    exact hj (h.queue.disjoint ha hzq)
  · refine hj (h.queue.disjoint hm ?_)
    rw [hq]
    rcases List.mem_append.mp ha with ha | ha
    · exact List.mem_append_left _ ha
    · exact List.mem_append_right _ (List.mem_cons_of_mem _ ha)

theorem esqFreeHashLockCtx_spec (hp : (s.ctx p).session = some session) :
    esqFreeHashLockCtx s p = .ok (s.setCtx p { s.ctx p with session := none }) := by
  unfold esqFreeHashLockCtx
  rw [hp]

theorem QueueInv.goodToGo {u : HashLocks} (h : QueueInv s qs ws)
    (hp : (s.ctx p).session = some session)
    (hqueue : IsQueueFamily u.next u.lock (Function.update qs idx (pre ++ post)))
    (hu : u.ctx = s.ctx)
    (hwake : u.nextInLocalWakeUpList = s.nextInLocalWakeUpList ∧ u.wakeUpList = s.wakeUpList)
    (hnum : u.brk = s.brk ∧ u.allocated = s.allocated) :
    ∃ r, Esq.goodToGo u p = .ok r ∧ r.code = esqOk ∧ r.woken = [] ∧
      Dequeued s r.locks qs ws idx p (pre ++ post) r.woken := by
  unfold Esq.goodToGo
  have hup : (u.ctx p).session = some session := by rw [hu, hp]
  rw [esqFreeHashLockCtx_spec hup]
  refine ⟨_, rfl, rfl, rfl, hqueue, ?_, ?_, hnum.1, hnum.2⟩
  · rw [wokenLists_nil]
    show IsQueueFamily u.nextInLocalWakeUpList u.wakeUpList ws
    rw [hwake.1, hwake.2]
    exact h.wake
  · show Function.update u.ctx p _ = _
    rw [hu]

theorem QueueInv.wakeUpOtherSessions (h : QueueInv s qs ws) (hq : qs idx = p :: post)
    (hp : (s.ctx p).session = some session)
    (hout : ∀ a ∈ granted s.isWrite post, ∀ w, a ∉ ws w) :
    ∃ r, wakeUpOtherSessions (s.setHead idx (s.next p)) idx p = .ok r ∧ r.code = esqOk ∧
      r.woken = granted s.isWrite post ∧ Dequeued s r.locks qs ws idx p post r.woken := by
  have hfam := h.setHead hq
  have hqueue : (s.setHead idx (s.next p)).queue idx = post := by
    have hlen : post.length ≤ s.allocated := by
      have := h.length idx
      rw [hq, List.length_cons] at this
      omega
    have hl := (hfam.queue idx).1
    rw [Function.update_self] at hl
    exact hl.walk_eq hlen
  have hnd : post.Nodup := by
    have := h.queue.nodup idx
    rw [hq] at this
    exact (List.nodup_cons.mp this).2
  obtain ⟨n, l, hjoin, hwake⟩ := esqHashLockCtxJoinLocalWakeUpList_spec
    (s := s.setHead idx (s.next p)) hqueue h.wake hnd hout
  have hfree := esqFreeHashLockCtx_spec
    (s := { s.setHead idx (s.next p) with nextInLocalWakeUpList := n, wakeUpList := l }) hp
  unfold Esq.wakeUpOtherSessions
  rw [hjoin]
  simp only [ok_bind, hfree]
  exact ⟨_, rfl, rfl, rfl, hfam, hwake, rfl, rfl, rfl⟩

/-! ### 新しくロックを持つ要求 -/

theorem QueueInv.nextHolders_eq (h : QueueInv s qs ws) (hq : qs idx = pre ++ p :: post)
    (hp : (s.ctx p).session = some session) :
    s.nextHolders session idx
      = (granted s.isWrite (pre ++ post)).filter fun a => a ∉ granted s.isWrite (qs idx) := by
  unfold HashLocks.nextHolders
  rw [h.queue_eq, h.filter_session hq hp]

theorem QueueInv.nextHolders_of_sole (h : QueueInv s qs ws) (hq : qs idx = p :: post)
    (hp : (s.ctx p).session = some session) (hsole : granted s.isWrite (qs idx) = [p]) :
    s.nextHolders session idx = granted s.isWrite post := by
  have hout : p ∉ post := by
    have := h.queue.nodup idx
    rw [hq] at this
    exact (List.nodup_cons.mp this).1
  have heq := h.nextHolders_eq ((List.nil_append _).symm ▸ hq : qs idx = [] ++ p :: post) hp
  rw [heq, hsole, List.nil_append]
  refine List.filter_eq_self.mpr fun a ha => ?_
  rw [decide_eq_true_iff, List.mem_singleton]
  rintro rfl
  exact hout (granted_subset ha)

theorem QueueInv.nextHolders_of_erase (h : QueueInv s qs ws) (hq : qs idx = pre ++ p :: post)
    (hp : (s.ctx p).session = some session)
    (herase : granted s.isWrite (pre ++ post) = (granted s.isWrite (qs idx)).erase p) :
    s.nextHolders session idx = [] := by
  rw [h.nextHolders_eq hq hp, herase]
  refine List.filter_eq_nil_iff.mpr fun a ha => ?_
  simpa using List.mem_of_mem_erase ha

theorem QueueInv.notMem_of_drained (h : QueueInv s qs ws) {a : CtxAddr} (ha : ¬ OnWakeUpList s a)
    (w : Nat) : a ∉ ws w := fun hm => ha ⟨w, ws w, (h.wake.queue w).1, hm⟩

/-- **ロックを持つ session の解放は、条件の下で必ず終わる。** -/
theorem QueueInv.release (h : QueueInv s qs ws) (hq : qs idx = pre ++ p :: post)
    (hp : (s.ctx p).session = some session) (hgr : p ∈ granted s.isWrite (qs idx))
    (hsafe : ReleaseSafe s session idx) :
    ∃ r, esqHashLockRelease s session idx = .ok r ∧ r.code = esqOk ∧
      r.woken = s.nextHolders session idx ∧
      Dequeued s r.locks qs ws idx p (pre ++ post) r.woken := by
  have hmem : p ∈ qs idx := by simp [hq]
  have hrange := h.range idx (List.ne_nil_of_mem hmem)
  have hhead := (h.queue.queue idx).1.head_eq
  have hnd := h.queue.nodup idx
  have hdrained := hsafe.drained
  have hfollowed := hsafe.followed p (by rw [h.queue_eq]; exact hmem) hp
  have hnext : s.next p = post.head? := by
    have hl := (h.queue.queue idx).1
    rw [hq] at hl
    exact hl.next_eq
  unfold esqHashLockRelease
  rw [if_neg (by omega), hhead, h.queue_eq]
  have hgr' := hgr
  rw [hq] at hgr' hnd
  rcases granted_remove_cases hnd hgr' with ⟨rfl, hsole, hkind⟩ | ⟨hr, hpre, herase, hnorm⟩
  · -- `p` だけが持っていた：`ctx_head` を進めて残りを起こす
    rw [List.nil_append] at hq
    rw [List.nil_append] at hsole
    have hwoken := h.nextHolders_of_sole hq hp (by rw [hq]; exact hsole)
    rw [hwoken] at hdrained
    obtain ⟨r, hr, hcode, hw, hd⟩ := h.wakeUpOtherSessions hq hp fun a ha w =>
      h.notMem_of_drained (hdrained a ha) w
    refine ⟨r, ?_, hcode, hw.trans hwoken.symm, hd⟩
    rw [hq, List.head?_cons]
    cases hst : (s.ctx p).state with
    | write =>
      simp only [hst, if_pos hp]
      exact hr
    | read =>
      -- 先頭が読みなら、次の書きが起こされる
      obtain ⟨y, ys, rfl, hy⟩ := hkind.resolve_left (by simp [HashLocks.isWrite, hst])
      have hys : (s.ctx y).state = .write := by simpa [HashLocks.isWrite] using hy
      simp only [hst, releaseRead, if_pos hp, hnext, List.head?_cons, hys]
      rw [hnext, List.head?_cons] at hr
      exact hr
  · have hst : (s.ctx p).state = .read := by simpa [HashLocks.isWrite, isRead_iff] using hr
    have hne : post ≠ [] := by
      rintro rfl
      rcases hfollowed with hw | hn
      · simp [hst] at hw
      · exact hn hnext
    obtain ⟨y, ys, rfl⟩ := List.exists_cons_of_ne_nil hne
    have hnone := h.nextHolders_of_erase hq hp (by rw [hq]; exact herase)
    cases pre with
    | nil =>
      -- 先頭の読みの後ろも読み：`ctx_head` を進めるだけ
      have hys : (s.ctx y).state = .read := by
        simpa [HashLocks.isWrite, isRead_iff] using hnorm rfl y ys rfl
      obtain ⟨r, hr, hcode, hw, hd⟩ := h.goodToGo (u := s.setHead idx (s.next p)) hp
        (h.setHead hq : IsQueueFamily _ _ (Function.update qs idx ([] ++ y :: ys)))
        rfl ⟨rfl, rfl⟩ ⟨rfl, rfl⟩
      refine ⟨r, ?_, hcode, hw.trans hnone.symm, hd⟩
      rw [hq, List.nil_append, List.head?_cons]
      simp only [hst, releaseRead, if_pos hp, hnext, List.head?_cons, hys]
      rw [hnext, List.head?_cons] at hr
      exact hr
    | cons z zs =>
      -- 途中の読み：手前の `next` を進めるだけ
      obtain ⟨l, hl⟩ : ∃ l, (z :: zs).getLast? = some l :=
        ⟨_, List.getLast?_eq_some_getLast (List.cons_ne_nil z zs)⟩
      have hothers : ∀ a ∈ z :: zs, s.isWrite a = false ∧ (s.ctx a).session ≠ some session := by
        intro a ha
        refine ⟨hpre a ha, fun he => ?_⟩
        have hap : a = p :=
          h.eq_of_session (by rw [hq]; exact List.mem_append_left _ ha) hmem (he.trans hp.symm)
        exact (List.nodup_append.mp hnd).2.2 a ha p List.mem_cons_self hap
      have hzst : (s.ctx z).state = .read := by
        simpa [HashLocks.isWrite, isRead_iff] using hpre z List.mem_cons_self
      obtain ⟨r, hr, hcode, hw, hd⟩ := h.goodToGo
        (u := { s with next := Function.update s.next l (s.next p) }) hp (h.unlink hq hl hne)
        rfl ⟨rfl, rfl⟩ ⟨rfl, rfl⟩
      refine ⟨r, ?_, hcode, hw.trans hnone.symm, hd⟩
      rw [hq, List.cons_append, List.head?_cons]
      simp only [hzst]
      rw [← List.cons_append, releaseRead_skip (z :: zs) none hothers, hl, Option.some_or]
      simp only [releaseRead, hst, if_pos hp]
      exact hr

end

section

variable {s : LockRun} {qs : Int → List CtxAddr} {ws : Nat → List CtxAddr} {p : CtxAddr}
  {idx : Int} {pre post : List CtxAddr} {session : Nat}

theorem QueueInv.granted_release {s : HashLocks} (h : QueueInv s qs ws)
    (hq : qs idx = pre ++ p :: post) (hp : (s.ctx p).session = some session)
    (hgr : p ∈ granted s.isWrite (qs idx)) :
    granted s.isWrite (pre ++ post)
      = (granted s.isWrite (qs idx)).erase p ++ s.nextHolders session idx := by
  have hnd := h.queue.nodup idx
  have hgr' := hgr
  rw [hq] at hnd hgr'
  rcases granted_remove_cases hnd hgr' with ⟨rfl, hsole, -⟩ | ⟨-, -, herase, -⟩
  · rw [List.nil_append] at hq
    rw [List.nil_append, ← hq] at hsole
    rw [h.nextHolders_of_sole hq hp hsole, hsole]
    simp
  · rw [← hq] at herase
    rw [h.nextHolders_of_erase hq hp herase, herase, List.append_nil]

theorem LockInv.held_eq (h : LockInv s qs ws) (idx : Int) :
    s.history.held idx = (granted s.locks.isWrite (qs idx)).map s.locks.request := by
  rw [h.held, h.requests]
  exact (granted_map (w := LockRequest.isWrite) s.locks.request (qs idx)).symm

theorem LockInv.request_session (h : LockInv s qs ws) {a : CtxAddr} (ha : a ∈ qs idx) :
    (s.locks.request a).session = session ↔ (s.locks.ctx a).session = some session := by
  unfold HashLocks.request
  cases hc : (s.locks.ctx a).session with
  | none => exact absurd hc (h.live idx a ha)
  | some k => simp

theorem LockInv.filter_requests (h : LockInv s qs ws) {xs : List CtxAddr}
    (hsub : ∀ a ∈ xs, a ∈ qs idx) :
    (xs.map s.locks.request).filter (fun r => r.session ≠ session)
      = (xs.filter fun a => (s.locks.ctx a).session ≠ some session).map s.locks.request := by
  rw [List.filter_map]
  congr 1
  refine List.filter_congr fun a ha => ?_
  exact decide_eq_decide.mpr (not_congr (h.request_session (hsub a ha)))

theorem LockInv.dequeue {t : HashLocks} (h : LockInv s qs ws) (hq : qs idx = pre ++ p :: post)
    (hp : (s.locks.ctx p).session = some session) (hgr : p ∈ granted s.locks.isWrite (qs idx))
    (hd : Dequeued s.locks t qs ws idx p (pre ++ post) (s.locks.nextHolders session idx)) :
    LockInv
      { locks := t,
        history := s.history.released idx session
          ((s.locks.nextHolders session idx).map s.locks.request) }
      (Function.update qs idx (pre ++ post))
      (wokenLists s.locks ws (s.locks.nextHolders session idx)) := by
  have hnd := h.queue.nodup idx
  have hmem : p ∈ qs idx := by simp [hq]
  have hfilter := h.toQueueInv.filter_session hq hp
  have hrest := h.toQueueInv.granted_release hq hp hgr
  have hwoken : ∀ a ∈ s.locks.nextHolders session idx, a ∈ pre ++ post := by
    intro a ha
    refine granted_subset (w := s.locks.isWrite) ?_
    rw [hrest]
    exact List.mem_append_right _ ha
  have hsub : ∀ a ∈ pre ++ post, a ∈ qs idx := by
    intro a ha
    rw [← hfilter] at ha
    exact List.mem_of_mem_filter ha
  -- 外した ctx の他は変わらないので、要求も変わらない
  have hreq : ∀ a, a ≠ p → t.request a = s.locks.request a := by
    intro a ha
    unfold HashLocks.request
    rw [hd.ctx, Function.update_of_ne ha]
  have hpout : p ∉ pre ++ post := by
    rw [hq] at hnd
    exact (List.nodup_middle.mp hnd).notMem
  have hout : ∀ j, (s.history.released idx session
        ((s.locks.nextHolders session idx).map s.locks.request)).outstanding j
      = (Function.update qs idx (pre ++ post) j).map t.request := by
    intro j
    unfold LockHistory.released
    by_cases hj : j = idx
    · subst hj
      simp only [Function.update_self]
      rw [h.requests, h.filter_requests fun a ha => ha, hfilter]
      refine List.map_congr_left fun a ha => (hreq a ?_).symm
      rintro rfl
      exact hpout ha
    · simp only [Function.update_of_ne hj]
      rw [h.requests]
      refine List.map_congr_left fun a ha => (hreq a ?_).symm
      rintro rfl
      exact hj (h.queue.disjoint ha hmem)
  refine ⟨h.toQueueInv.dequeue hq hd fun a ha => hsub a (hwoken a ha), hout, ?_⟩
  intro j
  by_cases hj : j = idx
  · subst hj
    rw [hout, Function.update_self]
    simp only [LockHistory.released, Function.update_self]
    have hgsub : ∀ a ∈ granted s.locks.isWrite (qs j), a ∈ qs j := fun a ha => granted_subset ha
    have herase : (granted s.locks.isWrite (qs j)).filter
          (fun a => (s.locks.ctx a).session ≠ some session)
        = (granted s.locks.isWrite (qs j)).erase p := by
      rw [((granted_sublist _).nodup hnd).erase_eq_filter]
      refine List.filter_congr fun a ha => ?_
      have hiff : (s.locks.ctx a).session = some session ↔ a = p :=
        ⟨fun he => h.toQueueInv.eq_of_session (hgsub a ha) hmem (he.trans hp.symm),
          fun he => he ▸ hp⟩
      by_cases hap : a = p <;> simp [hiff, hap, hp]
    rw [h.held_eq, h.filter_requests hgsub, herase, ← List.map_append, ← hrest]
    refine (granted_map (w := LockRequest.isWrite) s.locks.request _).trans ?_
    congr 1
    refine List.map_congr_left fun a ha => (hreq a ?_).symm
    rintro rfl
    exact hpout ha
  · simp only [LockHistory.released, Function.update_of_ne hj]
    exact h.held j

theorem releaseRead_holder {s : HashLocks} {r : Released} :
    ∀ (xs : List CtxAddr) (pp : Option CtxAddr), releaseRead s idx session pp xs = .ok r →
      ∃ p ∈ xs.takeWhile (fun a => !s.isWrite a), (s.ctx p).session = some session
  | [], _, h => by simp [releaseRead] at h
  | p :: rest, pp, h => by
    unfold releaseRead at h
    cases hst : (s.ctx p).state with
    | write => simp [hst] at h
    | read =>
      have htake : (p :: rest).takeWhile (fun a => !s.isWrite a)
          = p :: rest.takeWhile fun a => !s.isWrite a :=
        List.takeWhile_cons_of_pos (by simp [HashLocks.isWrite, hst])
      rw [htake]
      simp only [hst] at h
      split at h
      · next hp => exact ⟨p, List.mem_cons_self, hp⟩
      · obtain ⟨q, hq, hs⟩ := releaseRead_holder rest (some p) h
        exact ⟨q, List.mem_cons_of_mem _ hq, hs⟩

theorem QueueInv.holder_of_release {s : HashLocks} {r : Released} (h : QueueInv s qs ws)
    (hr : esqHashLockRelease s session idx = .ok r) :
    ∃ p ∈ granted s.isWrite (qs idx), (s.ctx p).session = some session := by
  unfold esqHashLockRelease at hr
  split at hr
  · simp at hr
  rw [h.queue_eq, (h.queue.queue idx).1.head_eq] at hr
  cases hq : qs idx with
  | nil => simp [hq] at hr
  | cons p rest =>
    rw [hq] at hr
    simp only [List.head?_cons] at hr
    cases hst : (s.ctx p).state with
    | read =>
      simp only [hst] at hr
      rw [granted_cons_read (by simp [HashLocks.isWrite, hst])]
      exact releaseRead_holder _ _ hr
    | write =>
      simp only [hst] at hr
      rw [granted_cons_write (by simp [HashLocks.isWrite, hst])]
      split at hr
      · next hp => exact ⟨p, List.mem_cons_self, hp⟩
      · simp at hr

theorem QueueInv.mem_of_nextHolders {s : HashLocks} (h : QueueInv s qs ws) {a : CtxAddr}
    (ha : a ∈ s.nextHolders session idx) : a ∈ qs idx := by
  have hmem := granted_subset (List.mem_of_mem_filter ha)
  rw [← h.queue_eq]
  exact List.mem_of_mem_filter hmem

/--
**解放の step は、条件の下で不変量を保つ。**

空になるのは外した ctx の session だけで、wake-up list に加わるのは列にあった ctx だけである。
-/
theorem LockInv.released {u : LockRun} (h : LockInv s qs ws)
    (hsafe : ReleaseSafe s.locks session idx)
    (hs : lockStep s (.release session idx) = some u) :
    ∃ qs' ws', LockInv u qs' ws' ∧
      (∀ a y, (u.locks.ctx a).session = some y → (s.locks.ctx a).session = some y) ∧
      ∀ w, ∀ a ∈ ws' w, a ∈ ws w ∨ a ∈ qs idx := by
  rw [lockStep] at hs
  split at hs
  · simp at hs
  next r hr =>
  obtain rfl := Option.some.inj hs
  obtain ⟨p, hgr, hp⟩ := h.toQueueInv.holder_of_release hr
  obtain ⟨pre, post, hq⟩ := List.append_of_mem (granted_subset hgr)
  obtain ⟨r', hr', -, hw, hd⟩ := h.toQueueInv.release hq hp hgr hsafe
  obtain rfl := Except.ok.inj (hr'.symm.trans hr)
  rw [hw] at hd ⊢
  refine ⟨_, _, h.dequeue hq hp hgr hd, fun a y ha => ?_, fun w a ha => ?_⟩
  · have ha : (Function.update s.locks.ctx p { s.locks.ctx p with session := none } a).session
        = some y := hd.ctx ▸ ha
    by_cases hap : a = p
    · rw [hap, Function.update_self] at ha
      cases ha
    · rwa [Function.update_of_ne hap] at ha
  · rcases List.mem_append.mp ha with ha | ha
    · exact Or.inl ha
    · exact Or.inr (h.toQueueInv.mem_of_nextHolders (List.mem_of_mem_filter ha))

theorem LockInv.pickUp {u : LockRun} {w : Nat} (h : LockInv s qs ws)
    (hs : lockStep s (.pickUp w) = some u) :
    ∃ ws', LockInv u qs ws' ∧ ∀ v, ∀ a ∈ ws' v, a ∈ ws v := by
  rw [lockStep] at hs
  split at hs
  · simp at hs
  next o t ht =>
  obtain rfl := Option.some.inj hs
  unfold esqWorkerPickUpFromLocalWakeUpList at ht
  have hhead := (h.wake.queue w).1.head_eq
  cases hq : ws w with
  | nil =>
    rw [hq] at hhead
    rw [hhead] at ht
    obtain ⟨-, rfl⟩ := Prod.mk.inj (Except.ok.inj ht)
    exact ⟨ws, h, fun _ _ ha => ha⟩
  | cons a rest =>
    rw [hq] at hhead
    rw [hhead] at ht
    simp only [List.head?_cons] at ht
    split at ht
    · simp at ht
    split at ht
    · simp at ht
    obtain ⟨-, rfl⟩ := Prod.mk.inj (Except.ok.inj ht)
    have hsub : ∀ v, ∀ b ∈ Function.update ws w rest v, b ∈ ws v := by
      intro v b hb
      by_cases hv : v = w
      · subst hv
        rw [Function.update_self] at hb
        exact hq ▸ List.mem_cons_of_mem a hb
      · rwa [Function.update_of_ne hv] at hb
    exact ⟨Function.update ws w rest, ⟨⟨h.queue, h.wake.pop hq, h.live, h.sessions, h.range,
      h.length, fun v b hb => h.wakeAllocated v b (hsub v b hb), h.heapFree⟩, h.requests, h.held⟩,
      hsub⟩

theorem lockInv_step (s : LockRun) (op : LockOp) (t : LockRun) (h : ∃ qs ws, LockInv s qs ws)
    (hsafe : LockStepSafe s op) (hs : lockStep s op = some t) : ∃ qs ws, LockInv t qs ws := by
  obtain ⟨qs, ws, h⟩ := h
  cases op with
  | fetch session state idx w b =>
    obtain ⟨qs', h'⟩ := h.fetch hs
    exact ⟨qs', ws, h'⟩
  | release session idx =>
    obtain ⟨qs', ws', h', -⟩ := h.released hsafe hs
    exact ⟨qs', ws', h'⟩
  | pickUp w =>
    obtain ⟨ws', h', -⟩ := h.pickUp hs
    exact ⟨qs, ws', h'⟩

end

/-! ## 先着順の読み書きロック -/

def Holds (s : LockRun) (session : Nat) (idx : Int) : Prop :=
  ∃ r ∈ s.history.held idx, r.session = session

instance (s : LockRun) (session : Nat) (idx : Int) : Decidable (Holds s session idx) :=
  inferInstanceAs (Decidable (∃ r ∈ _, _))

/--
解放が `ESQ_OK` で終わり、新しくロックを持つ要求がちょうど一度ずつ、
要求を出した worker の wake-up list の末尾に繋がれる。
-/
def ReleaseCompletes (s : HashLocks) (session : Nat) (idx : Int) : Prop :=
  ∃ r, esqHashLockRelease s session idx = .ok r ∧ r.code = esqOk ∧
    (s.nextHolders session idx).Nodup ∧
    ∀ w xs, Linked s.nextInLocalWakeUpList (s.wakeUpList w).head xs →
      Linked r.locks.nextInLocalWakeUpList (r.locks.wakeUpList w).head
        (xs ++ (s.nextHolders session idx).filter fun p => (s.ctx p).workerCtx = w)

/-- 一つの状態での、先着順の読み書きロックの性質。 -/
structure FifoRwLock (s : LockRun) : Prop where
  /-- ロックを持つのは、書き一つか、読みだけである -/
  exclusive : ∀ idx, (∃ r, s.history.held idx = [r] ∧ r.isWrite = true) ∨
    ∀ r ∈ s.history.held idx, r.isWrite = false
  /-- `ctx_head` からの列は解放されていない要求を到着順に並べたもので、`ctx_tail` はその末尾である -/
  arrival : ∀ idx, ∃ q, Linked s.locks.next (s.locks.lock idx).head q ∧
    q.map s.locks.request = s.history.outstanding idx ∧
    (q ≠ [] → (s.locks.lock idx).tail = q.getLast?)
  /-- ロックを持つのは、到着順の列から読み書きの規則で許されるものである -/
  holders : ∀ idx, s.history.held idx
    = granted LockRequest.isWrite (s.history.outstanding idx)

theorem LockInv.fifoRwLock {s : LockRun} {qs : Int → List CtxAddr} {ws : Nat → List CtxAddr}
    (h : LockInv s qs ws) : FifoRwLock s where
  exclusive idx := by
    rw [h.held]
    exact granted_exclusive _
  arrival idx :=
    ⟨qs idx, (h.queue.queue idx).1, (h.requests idx).symm, (h.queue.queue idx).2⟩
  holders := h.held

theorem LockInv.releaseCompletes {s : LockRun} {qs : Int → List CtxAddr}
    {ws : Nat → List CtxAddr} {session : Nat} {idx : Int} (h : LockInv s qs ws)
    (hold : Holds s session idx) (hsafe : ReleaseSafe s.locks session idx) :
    ReleaseCompletes s.locks session idx := by
  obtain ⟨req, hmem, hreq⟩ := hold
  rw [h.held_eq] at hmem
  obtain ⟨p, hgr, rfl⟩ := List.mem_map.mp hmem
  have hp := (h.request_session (granted_subset hgr)).mp hreq
  obtain ⟨pre, post, hq⟩ := List.append_of_mem (granted_subset hgr)
  obtain ⟨r, hr, hcode, hw, hd⟩ := h.toQueueInv.release hq hp hgr hsafe
  refine ⟨r, hr, hcode, ?_, fun w xs hxs => ?_⟩
  · unfold HashLocks.nextHolders
    rw [h.toQueueInv.queue_eq]
    refine ((granted_sublist _).nodup ?_).filter _
    exact (h.queue.nodup idx).filter _
  · rw [← hw, hxs.unique (h.wake.queue w).1]
    exact (hd.wake.queue w).1

/--
**すべての解放が条件を満たす実行では、hash lock は先着順の読み書きロックである。**

到達した状態で、ロックを持つ session が条件を満たす解放をすると必ず終わる。
-/
theorem hashLock_fifo (b : Bool) (ops : List LockOp) (s : LockRun)
    (hsafe : Along lockStep LockStepSafe (LockRun.init b) ops)
    (hrun : runFrom lockStep (LockRun.init b) ops = some s) :
    FifoRwLock s ∧ ∀ session idx, Holds s session idx → ReleaseSafe s.locks session idx →
      ReleaseCompletes s.locks session idx := by
  obtain ⟨qs, ws, h⟩ := runFrom_invariant lockInv_step ⟨_, _, lockInv_init b⟩ hsafe hrun
  exact ⟨h.fifoRwLock, fun session idx hold hs => h.releaseCompletes hold hs⟩

/-- 読み二つと書き一つが並び、先頭の読みが解放される。 -/
theorem hashLock_fifo_two_readers :
    ∃ s, runFrom lockStep (LockRun.init false)
        [.fetch 1 .read 0 0 true, .fetch 2 .read 0 0 true, .fetch 3 .write 0 1 true,
          .release 1 0] = some s ∧
      FifoRwLock s ∧ ReleaseCompletes s.locks 2 0 := by
  refine ⟨_, rfl, ?_⟩
  have h := hashLock_fifo false
    [.fetch 1 .read 0 0 true, .fetch 2 .read 0 0 true, .fetch 3 .write 0 1 true, .release 1 0]
    _ ?_ rfl
  · refine ⟨h.1, h.2 2 0 ⟨⟨2, .read, 0⟩, by decide, rfl⟩ ⟨by decide, ?_⟩⟩
    rintro p - ⟨w, ws, hl, hm⟩
    rw [hl.eq_none_iff.mp rfl] at hm
    simp at hm
  · refine ⟨trivial, ?_⟩
    rintro _ ⟨⟩
    refine ⟨trivial, ?_⟩
    rintro _ ⟨⟩
    refine ⟨trivial, ?_⟩
    rintro _ ⟨⟩
    refine ⟨⟨by decide, ?_⟩, fun _ _ => trivial⟩
    rintro p - ⟨w, ws, hl, hm⟩
    rw [hl.eq_none_iff.mp rfl] at hm
    simp at hm

/-- 読みを一つ持つだけの session が解放すると、`p->next->state` で落ちる。 -/
theorem sole_reader_release_segv :
    ∃ s, runFrom lockStep (LockRun.init false) [.fetch 1 .read 0 0 true] = some s ∧
      Holds s 1 0 ∧ esqHashLockRelease s.locks 1 0 = .error .segv ∧
      ¬ ReleaseCompletes s.locks 1 0 := by
  have hsegv : ∀ s, runFrom lockStep (LockRun.init false) [.fetch 1 .read 0 0 true] = some s →
      esqHashLockRelease s.locks 1 0 = .error .segv := by
    rintro _ ⟨⟩
    rfl
  refine ⟨_, rfl, ⟨⟨1, .read, 0⟩, by decide, rfl⟩, hsegv _ rfl, ?_⟩
  rintro ⟨r, hr, -⟩
  rw [hsegv _ rfl] at hr
  simp at hr

end Esq
