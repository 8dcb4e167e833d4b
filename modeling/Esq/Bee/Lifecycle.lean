import Esq.Bee.OwnedCall

/-!
# bee の接続の一生

`bee_create_new_session` が接続を受けてから、session の仕組みが渡す event を経て、接続が終わるまで。

* `bee_connection_released_iff` — descriptor がちょうど一度閉じ、領域がちょうど一度ずつ解放され、
  どれも放した後で触れられないのは、どの呼び出しも `session->fd` が正のうちに来て、同期の要求の header を
  揃えない run である
* `bee_calls_fit` — `__winded_up` で待つ間に timeout も exit も来なければ、`session->fd` は正のままである

`bee_session_receive_request` は、同期の要求を `bee_db_start_merge_sprint` に渡した後、そこで閉じた descriptor を
`__exx` でもう一度閉じる。
-/

namespace Esq

open Infra Infra.Owning

/-! ## 接続を受ける -/

/-- 接続を受ける間に OS と session の仕組みが返すもの。 -/
structure BeeSetupIo where
  /-- `os_socket_set_non_blocking` が成功する -/
  nonBlocking : Bool
  /-- `bee_service_ctx_t` の `malloc` -/
  malloc : Bool
  /-- `esq_session_new` が `NULL` でない -/
  sessionNew : Bool
deriving DecidableEq, Repr

/-- `bee_create_new_session` の、`accept` が `fd` を返した後。受けられなければ `none` を返す。 -/
def Owned.beeCreateNewSession (fd : Int) (io : BeeSetupIo) :
    BeeOwning (Except Fault (Option Session)) := do
  acquire (.fd fd)
  touch (.fd fd)
  if !io.nonBlocking || !io.malloc then do
    release (.fd fd)
    pure (.ok none)
  else do
    acquire .ctx
    touch .ctx
    if !io.sessionNew then do
      release (.fd fd)
      release .ctx
      pure (.ok none)
    else do
      touch .ctx
      pure ((Client.accept .bee fd).map fun c => some c.session)

structure BeeLife where
  session : Session
  conn : OwnedConn := {}
  clientFd : Int
  /-- これまでに資源に行ったこと -/
  ops : List (OwnOp BeeRes)
  /-- 呼び出しの中でプロセスが終わった -/
  exited : Bool := false
deriving DecidableEq, Repr

namespace BeeLife

/-- 接続を受けた所。受けられなかった接続の session は、解放されている。 -/
def start (fd : Int) (io : BeeSetupIo) : Except Fault BeeLife := do
  let s ← (Owned.beeCreateNewSession fd io).result
  .ok { session := s.getD {}, clientFd := fd, ops := (Owned.beeCreateNewSession fd io).ops }

def ended (l : BeeLife) : Bool := l.exited || !l.session.magic

/-! ## event -/

def act (l : BeeLife) (action : Action) (os : Int) : Option BeeLife :=
  match l.session.takeAction action os with
  | .error _ => none
  | .ok (_, s) => some { l with session := s }

/-- 呼び出しの後。callback が戻れば、worker は `esq_session_wind_up` を呼ぶ。 -/
def finish (l : BeeLife) (s : Session) (os : Int) : Except Fault BeeCallEnd → Option BeeLife
  | .error _ => some { l with session := s, exited := true }
  | .ok (.waiting t conn) => ({ l with session := t, conn } : BeeLife).act .windUp os
  | .ok .closed => ({ l with session := s } : BeeLife).act .windUp os

/-- active list から選ばれて、`session->cb` の `bee_session_receive_request` が呼ばれる。 -/
def execute (l : BeeLife) (env : BeeCallEnv) (os : Int) : Option BeeLife :=
  match l.session.takeAction .executeCb 0 with
  | .error _ => none
  | .ok (r, s) =>
    if r ≠ 0 then some { l with session := s }
    else
      let call := Owned.beeSessionReceiveRequest env s l.conn
      ({ l with ops := l.ops ++ call.ops } : BeeLife).finish s os call.result

end BeeLife

inductive BeeEvent where
  | pickUp (os : Int)
  | poll (ioUringFlags : Nat)
  | timeout (os : Int)
  | exit (os : Int)
  | aioRemoved
  | execute (env : BeeCallEnv) (os : Int)

/-- 一つの event。プロセスが終わった後や、渡せない action なら `none`。 -/
def beeLifeStep (l : BeeLife) (e : BeeEvent) : Option BeeLife :=
  if l.exited then none
  else match e with
    | .pickUp os => l.act .pickUp os
    | .poll ioUringFlags =>
      if eventFlags ioUringFlags = 0 then some l
      else l.act (.notifyEvent (eventFlags ioUringFlags)) 0
    | .timeout os => l.act .notifyTimeout os
    | .exit os => l.act .notifyExit os
    | .aioRemoved => l.act .notifyAioRemoved 0
    | .execute env os => l.execute env os

/-! ## 性質と条件 -/

/-- 資源は持っている間にだけ触れられ、終わった接続の資源はちょうど一度ずつ放されている。 -/
structure BeeLife.Released (l : BeeLife) : Prop where
  /-- 開いた descriptor と生きた領域にしか触れない -/
  sound : (runFrom OwnOp.apply (fun _ => .absent) l.ops).isSome
  untouched : ∀ xs r ys, l.ops = xs ++ .release r :: ys → ∀ op ∈ ys, op.target ≠ r
  closed : l.ended → l.ops.count (.release (.fd l.clientFd)) = 1
  freed : l.ended → ∀ r, .acquire r ∈ l.ops → l.ops.count (.release r) = 1

/-- 呼び出しは、`session->fd` が正のうちに来て、同期の要求の header を揃えない。 -/
def CallFits (l : BeeLife) : BeeEvent → Prop
  | .execute env _ => l.session.magic = true → l.session.lc = .single .active →
      0 < l.session.fd ∧ (l.session.closing = false → l.conn.syncArrives env.sock = false)
  | _ => True

/-- `__winded_up` で待つ間に timeout も exit も来ず、同期の要求の header も揃わない。 -/
def Undisturbed (l : BeeLife) : BeeEvent → Prop
  | .timeout _ => l.session.lc ≠ .single .windedUp
  | .exit _ => l.session.lc ≠ .single .windedUp
  | .execute env _ => l.conn.syncArrives env.sock = false
  | _ => True

/-! ## session の不変量 -/

/-- event か callback を待つ session。`F` は `session->fd` の取りうる値である。 -/
structure WaitingSession (F : Int → Prop) (s : Session) : Prop where
  magic : s.magic = true
  sessionType : s.sessionType = .socketCb
  label : s.lc = .single .waitForCpu ∨ s.lc = .single .windedUp ∨ s.Woken
  fd : F s.fd

section

variable {F : Int → Prop} {s t : Session} {p : PtRun} {os r : Int} {action : Action}
  {l l' : BeeLife} {env : BeeCallEnv} {e : BeeEvent} {fd : Int} {io : BeeSetupIo}

theorem WaitingSession.installFd (hm : p.session.magic = true)
    (ht : p.session.sessionType = .socketCb) (hF : F p.session.fd) :
    WaitingSession F (SingleShot.installFd p os).session := by
  unfold SingleShot.installFd
  split
  · split
    · exact ⟨hm, ht, Or.inr (Or.inr (Or.inr rfl)), hF⟩
    · exact ⟨hm, ht, Or.inr (Or.inl rfl), hF⟩
  · exact ⟨hm, ht, Or.inr (Or.inl rfl), hF⟩

theorem WaitingSession.removeFdThenActive (hm : p.session.magic = true)
    (ht : p.session.sessionType = .socketCb) (hF : F p.session.fd) (hzero : F 0) :
    WaitingSession F (SingleShot.removeFdThenActive p os).session := by
  unfold SingleShot.removeFdThenActive PtRun.changeToNoTimingList
  split
  · split
    · exact ⟨hm, ht, Or.inr (Or.inr (Or.inr rfl)), hzero⟩
    · dsimp only
      split
      · exact ⟨hm, ht, Or.inr (Or.inr (Or.inl rfl)), hzero⟩
      · exact ⟨hm, ht, Or.inr (Or.inr (Or.inl rfl)), hzero⟩
  · exact ⟨hm, ht, Or.inr (Or.inr (Or.inr rfl)), hF⟩

/-- **event を受けても、session は待ち続ける。** fd が 0 になるのは、`__winded_up` で timeout か exit を
受けたときだけである。 -/
theorem WaitingSession.act (h : WaitingSession F s) (hact : action.FromEngine)
    (hzero : action = .notifyTimeout ∨ action = .notifyExit → s.lc = .single .windedUp → F 0)
    (hs : s.takeAction action os = .ok (r, t)) : WaitingSession F t := by
  obtain ⟨p, hp, ht⟩ := takeAction_single_inv h.magic h.sessionType hs
  unfold esqPtOfSingleShotSocket at hp
  rcases h.label with hl | hl | hl | hl
  · rw [show s.ready.lc = .single .waitForCpu from hl] at hp
    cases action with
    | pickUp =>
      cases hp
      rw [ht installFd_postOp]
      exact .installFd h.magic h.sessionType h.fd
    | _ => cases hp
  · rw [show s.ready.lc = .single .windedUp from hl] at hp
    cases action with
    | notifyEvent bits =>
      cases hp
      rw [ht rfl]
      exact ⟨h.magic, h.sessionType, Or.inr (Or.inr (Or.inr rfl)), h.fd⟩
    | notifyTimeout =>
      cases hp
      rw [ht (removeFdThenActive_postOp rfl)]
      exact .removeFdThenActive h.magic h.sessionType h.fd (hzero (Or.inl rfl) hl)
    | notifyExit =>
      cases hp
      rw [ht (removeFdThenActive_postOp rfl)]
      exact .removeFdThenActive h.magic h.sessionType h.fd (hzero (Or.inr rfl) hl)
    | _ => cases hp
  · rw [show s.ready.lc = .single .waitForRemovedThenActive from hl] at hp
    cases action with
    | notifyAioRemoved =>
      cases hp
      rw [ht rfl]
      exact ⟨h.magic, h.sessionType, Or.inr (Or.inr (Or.inr rfl)), h.fd⟩
    | notifyExit =>
      cases hp
      rw [ht rfl]
      exact ⟨h.magic, h.sessionType, Or.inr (Or.inr (Or.inl rfl)), h.fd⟩
    | _ => cases hp
  · rw [show s.ready.lc = .single .active from hl] at hp
    cases action with
    | notifyEvent bits =>
      cases hp
      rw [ht rfl]
      exact ⟨h.magic, h.sessionType, Or.inr (Or.inr (Or.inr hl)), h.fd⟩
    | notifyExit =>
      cases hp
      rw [ht rfl]
      exact ⟨h.magic, h.sessionType, Or.inr (Or.inr (Or.inr rfl)), h.fd⟩
    | executeCb => exact hact.elim
    | _ => cases hp

theorem WaitingSession.inCall (h : WaitingSession F s) : InCall s.executing :=
  ⟨h.magic, h.sessionType, rfl⟩

/-! ## 接続の不変量 -/

/-- 待つ接続は自分の資源を持ち、終わった接続はすべてを放している。 -/
inductive BeeLife.Inv (F : Int → Prop) (l : BeeLife) : Prop where
  | live (exited : l.exited = false) (session : WaitingSession F l.session)
      (positive : ∀ n, F n → 0 < n → n = l.clientFd) (conn : l.conn.Waits)
      (ledger : ∃ L, runFrom OwnOp.apply (fun _ => .absent) l.ops = some L
        ∧ HoldsAll l.clientFd l.conn.hasRecvBuf false L)
  | ended (exited : l.exited = false) (magic : l.session.magic = false)
      (ledger : ∃ L, runFrom OwnOp.apply (fun _ => .absent) l.ops = some L ∧ AllFreed l.clientFd L)

theorem BeeLife.Inv.exited_eq (h : l.Inv F) : l.exited = false := by
  cases h with
  | live exited => exact exited
  | ended exited => exact exited

theorem BeeLife.Inv.released (h : l.Inv F) : l.Released := by
  cases h with
  | live exited session positive conn ledger =>
    obtain ⟨L, hL, -⟩ := ledger
    have hended : ¬ l.ended = true := by simp [BeeLife.ended, exited, session.magic]
    refine ⟨by simp [hL], fun xs r ys hops => ?_, fun h => absurd h hended,
      fun h => absurd h hended⟩
    rw [hops] at hL
    exact OwnOp.untouched_after_release hL
  | ended exited magic ledger =>
    obtain ⟨L, hL, hfreed⟩ := ledger
    refine ⟨by simp [hL], fun xs r ys hops => ?_, fun _ => ?_, fun _ r hmem => ?_⟩
    · rw [hops] at hL
      exact OwnOp.untouched_after_release hL
    · simpa [hfreed.own] using OwnOp.count_release (r := .fd l.clientFd) hL
    · exact OwnOp.once_of_not_held hL (hfreed.not_held r) hmem

theorem BeeLife.act_of_ok (h : l.session.takeAction action os = .ok (r, t)) :
    l.act action os = some { l with session := t } := by
  unfold BeeLife.act
  rw [h]

theorem BeeLife.Inv.act (h : l.Inv F) (hstep : l.act action os = some l')
    (hact : action.FromEngine) (hzero : action = .notifyTimeout ∨ action = .notifyExit →
      l.session.lc = .single .windedUp → F 0) : l'.Inv F := by
  unfold BeeLife.act at hstep
  split at hstep
  · cases hstep
  next r s hs =>
    cases hstep
    cases h with
    | live exited session positive conn ledger =>
      exact .live exited (session.act hact hzero hs) positive conn ledger
    | ended exited magic ledger =>
      unfold Session.takeAction at hs
      rw [if_neg (by simp [magic])] at hs
      cases hs
      exact .ended exited magic ledger

/-- **条件を満たす呼び出しは、接続の資源を持ち続けるか、すべてを放す。** -/
theorem BeeLife.Inv.execute (h : l.Inv F) (hfits : CallFits l (.execute env os))
    (hstep : l.execute env os = some l') : l'.Inv F := by
  unfold BeeLife.execute at hstep
  cases h with
  | ended exited magic ledger =>
    unfold Session.takeAction at hstep
    rw [if_neg (by simp [magic])] at hstep
    cases hstep
    exact .ended exited magic ledger
  | live exited session positive conn ledger =>
    obtain ⟨L, hL, hholds⟩ := ledger
    have hl : l.session.lc = .single .active := by
      split at hstep
      · cases hstep
      next r s hs =>
        exact active_of_takeAction_executeCb session.magic session.sessionType session.label hs
    rw [takeAction_executeCb session.magic session.sessionType hl] at hstep
    dsimp only at hstep
    rw [if_neg (by decide)] at hstep
    obtain ⟨hpos, hsync⟩ := hfits session.magic hl
    have hfd : l.session.executing.fd = l.clientFd := positive _ session.fd hpos
    rw [← hfd] at hholds
    have hin := session.inCall
    obtain ⟨M, hM, hpost⟩ := wp_beeSessionReceiveRequest hin hholds conn hpos hsync
    have hops := runFrom_append_eq_some.mpr ⟨L, hL, hM⟩
    generalize Owned.beeSessionReceiveRequest env l.session.executing l.conn = call at *
    unfold BeeLife.finish at hstep
    split at hstep
    next fault hres =>
      rw [hres] at hpost
      exact hpost.elim
    next t c hres =>
      rw [hres] at hpost
      obtain ⟨hheld, hwaits, rfl⟩ := hpost
      rw [BeeLife.act_of_ok (takeAction_windUp_rearmed hin.magic hin.sessionType _ _)] at hstep
      cases hstep
      refine .live exited (.installFd session.magic session.sessionType session.fd) positive hwaits
        ⟨M, hops, ?_⟩
      rw [hfd] at hheld
      exact hheld
    next hres =>
      rw [hres] at hpost
      rw [BeeLife.act_of_ok (takeAction_windUp_executing (s := l.session.executing)
        hin.magic hin.sessionType hin.lc)] at hstep
      cases hstep
      refine .ended exited rfl ⟨M, hops, ?_⟩
      rw [← hfd]
      exact hpost

/-- **条件を満たす event は、接続の不変量を保つ。** -/
theorem BeeLife.Inv.step (h : l.Inv F) (hfits : CallFits l e)
    (hzero : (∃ os, e = .timeout os ∨ e = .exit os) → l.session.lc = .single .windedUp → F 0)
    (hstep : beeLifeStep l e = some l') : l'.Inv F := by
  unfold beeLifeStep at hstep
  rw [if_neg (by simp [h.exited_eq])] at hstep
  cases e with
  | pickUp os => exact h.act hstep trivial (by simp)
  | poll ioUringFlags =>
    dsimp only at hstep
    split at hstep
    · cases hstep
      exact h
    next hne => exact h.act hstep ⟨hne, eventFlags_lt ioUringFlags⟩ (by simp)
  | timeout os => exact h.act hstep trivial fun _ => hzero ⟨os, Or.inl rfl⟩
  | exit os => exact h.act hstep trivial fun _ => hzero ⟨os, Or.inr rfl⟩
  | aioRemoved => exact h.act hstep trivial (by simp)
  | execute env os => exact h.execute hfits hstep

theorem BeeLife.Inv.breaks (h : l.Inv F) (hbad : ¬ CallFits l e) :
    ∃ l', beeLifeStep l e = some l' ∧ ¬ l'.Released := by
  cases e with
  | execute env os =>
    unfold CallFits at hbad
    simp only [not_forall, not_and] at hbad
    obtain ⟨hm, hl, hbad⟩ := hbad
    cases h with
    | ended exited magic ledger =>
      rw [hm] at magic
      cases magic
    | live exited session positive conn ledger =>
      obtain ⟨L, hL, hholds⟩ := ledger
      have hin := session.inCall
      unfold beeLifeStep BeeLife.execute
      rw [if_neg (by simp [exited])]
      dsimp only
      rw [takeAction_executeCb hm session.sessionType hl]
      dsimp only
      rw [if_neg (by decide)]
      by_cases hpos : 0 < l.session.fd
      · obtain ⟨hclosing, hsync⟩ := hbad hpos
        have hfd : l.session.executing.fd = l.clientFd := positive _ session.fd hpos
        rw [← hfd] at hholds
        rw [Bool.not_eq_false] at hsync
        obtain ⟨hres, hnot⟩ := not_wp_of_syncArrives hholds hpos hclosing hsync
        rw [hres]
        refine ⟨_, BeeLife.act_of_ok (takeAction_windUp_executing (s := l.session.executing)
          hin.magic hin.sessionType hin.lc), fun hrel => ?_⟩
        obtain ⟨M, hM⟩ := Option.isSome_iff_exists.mp hrel.sound
        obtain ⟨L', hL', hM⟩ := runFrom_append_eq_some.mp hM
        rw [hL] at hL'
        cases hL'
        exact hnot (fun _ _ => True) ⟨M, hM, trivial⟩
      · -- `fd <= 0` では何も放さずに終わる
        have hcall : Owned.beeSessionReceiveRequest env l.session.executing l.conn
            = pure (.error .designError) := if_pos (not_lt.mp hpos)
        rw [hcall]
        refine ⟨_, rfl, fun hrel => ?_⟩
        have hclosed : (l.ops ++ []).count (OwnOp.release (BeeRes.fd l.clientFd)) = 1 :=
          hrel.closed rfl
        have hcount := OwnOp.count_release (r := .fd l.clientFd) hL
        rw [List.append_nil] at hclosed
        simp [hholds.own, hclosed] at hcount
  | _ => exact absurd trivial hbad

/-! ## 接続を受けた所 -/

theorem wp_beeCreateNewSession (fd : Int) (io : BeeSetupIo) :
    (Owned.beeCreateNewSession fd io).wp (fun r L => (r = .ok none ∧ AllFreed fd L)
      ∨ (r = .ok (some (Service.bee.accepted fd)) ∧ HoldsAll fd false false L)) fun _ => .absent := by
  unfold Owned.beeCreateNewSession
  rw [accept_eq]
  simp only [wp_bind, wp_acquire, wp_touch, true_and]
  refine ⟨by simp, ?_⟩
  split
  · simp only [wp_bind, wp_release, wp_pure]
    refine ⟨by simp, Or.inl ⟨trivial, by simp, fun r => ?_⟩⟩
    cases r with
    | fd n => by_cases hn : n = fd <;> simp [hn]
    | _ => simp
  · simp only [wp_bind, wp_acquire, wp_touch]
    refine ⟨by simp, by simp, ?_⟩
    split
    · simp only [wp_bind, wp_release, wp_pure]
      refine ⟨by simp, by simp, Or.inl ⟨trivial, by simp, fun r => ?_⟩⟩
      cases r with
      | fd n => by_cases hn : n = fd <;> simp [hn]
      | _ => simp
    · simp only [wp_bind, wp_touch, wp_pure]
      refine ⟨by simp, Or.inr ⟨rfl, by simp, fun n hn => by simp [hn], by simp, by simp, by simp⟩⟩

theorem BeeLife.start_inv (fd : Int) (io : BeeSetupIo) (hF : F fd)
    (hpos : ∀ n, F n → 0 < n → n = fd) : ∃ l, BeeLife.start fd io = .ok l ∧ l.Inv F := by
  obtain ⟨L, hL, hpost⟩ := wp_beeCreateNewSession fd io
  unfold BeeLife.start
  rcases hpost with ⟨hres, hfreed⟩ | ⟨hres, hholds⟩
  · rw [hres]
    exact ⟨_, rfl, .ended rfl rfl ⟨L, hL, hfreed⟩⟩
  · rw [hres]
    exact ⟨_, rfl, .live rfl ⟨rfl, rfl, Or.inl rfl, hF⟩ hpos ⟨by simp, rfl⟩ ⟨L, hL, hholds⟩⟩

/-! ## 結果 -/

/--
**接続の資源がどの状態でも正しく扱われるのは、どの呼び出しも `session->fd` が正のうちに来て、
同期の要求の header を揃えない、ちょうどそのときである。**
-/
theorem bee_connection_released_iff (fd : Nat) (io : BeeSetupIo) :
    ∃ l, BeeLife.start fd io = .ok l ∧ ∀ events : List BeeEvent,
      Throughout beeLifeStep BeeLife.Released l events ↔ Along beeLifeStep CallFits l events := by
  have hpos : ∀ n : Int, n = fd ∨ n ≤ 0 → 0 < n → n = fd := fun n hn hpos =>
    hn.resolve_right (not_le.mpr hpos)
  obtain ⟨l, hl, hinv⟩ := BeeLife.start_inv fd io (Or.inl rfl) hpos
  refine ⟨l, hl, fun events => ?_⟩
  have h : Throughout beeLifeStep BeeLife.Released l events
      ∧ Along beeLifeStep (fun _ _ => True) l events ↔ Along beeLifeStep CallFits l events :=
    throughout_and_along_iff
      (fun s i t hs _ hfits hstep => hs.step hfits (fun _ _ => Or.inr le_rfl) hstep)
      (fun _ _ _ _ _ => trivial) (fun s i hs _ hbad _ => hs.breaks hbad)
      (fun s hs => hs.released) hinv along_true
  rw [← h, and_iff_left along_true]

def bareSyncHeader : HeaderFromPonyToBee := { opcode := 10, rangeMapNameLen := 1, keyLen := 1 }

def BeeCallEnv.sample (bytes : List UInt8) : BeeCallEnv where
  sock := { arrived := bytes }
  malloc := none
  rearm := true
  node := sampleNode
  buckets := sampleBuckets fun _ => none
  write := { kcdbOk := fun _ => true, forward := fun _ => .sent }
  replyMalloc := none
  monkeyMalloc := true
  sockTimeout := true
  turns := []

def BeeLife.sample : BeeLife where
  session := Service.bee.accepted 5
  clientFd := 5
  ops := (Owned.beeCreateNewSession 5 ⟨true, true, true⟩).ops

/--
同期の要求の header だけを送った接続。

`bee_db_start_merge_sprint0` は data の長さを見て loop を抜け、descriptor を閉じる。`__exx` がそれをもう一度閉じる。
-/
theorem sync_header_closes_twice :
    ∃ l l', BeeLife.start 5 ⟨true, true, true⟩ = .ok l
      ∧ runFrom beeLifeStep l [.pickUp 0, .poll pollIn,
        .execute (.sample bareSyncHeader.bytes) 0] = some l'
      ∧ l'.ops.count (.release (.fd 5)) = 2 ∧ ¬ l'.Released := by
  have hstart : BeeLife.start 5 ⟨true, true, true⟩ = .ok .sample := by
    unfold BeeLife.start Owned.beeCreateNewSession
    rw [accept_eq]
    rfl
  have hrun : (runFrom beeLifeStep .sample [.pickUp 0, .poll pollIn,
      .execute (.sample bareSyncHeader.bytes) 0]).map (fun l =>
        (l.ops.count (.release (.fd 5)), l.ended, l.clientFd)) = some (2, true, 5) := by
    decide +kernel
  obtain ⟨l', hl', heq⟩ := Option.map_eq_some_iff.mp hrun
  simp only [Prod.mk.injEq] at heq
  obtain ⟨hcount, hended, hfd⟩ := heq
  refine ⟨.sample, l', hstart, hl', hcount, fun hrel => ?_⟩
  have hclosed := hrel.closed hended
  rw [hfd, hcount] at hclosed
  cases hclosed

/-! ## 正のままの fd -/

theorem BeeLife.Inv.fits (h : l.Inv F) (hF : ∀ n, F n → 0 < n) (hok : Undisturbed l e) :
    CallFits l e := by
  cases e with
  | execute env os =>
    intro hm hl
    cases h with
    | live exited session positive conn ledger => exact ⟨hF _ session.fd, fun _ => hok⟩
    | ended exited magic ledger =>
      rw [hm] at magic
      cases magic
  | _ => trivial

/-- **`__winded_up` で待つ間に timeout も exit も来なければ、`session->fd` は正のままである。** -/
theorem bee_calls_fit {fd : Nat} (hfd : 0 < fd) (io : BeeSetupIo) :
    ∃ l, BeeLife.start fd io = .ok l ∧ ∀ events : List BeeEvent,
      Along beeLifeStep Undisturbed l events → Along beeLifeStep CallFits l events := by
  obtain ⟨l, hl, hinv⟩ := BeeLife.start_inv fd io (F := fun n => n = fd) rfl fun _ hn _ => hn
  have hF : ∀ n : Int, n = fd → 0 < n := fun n hn => by omega
  refine ⟨l, hl, fun events => Along.of_invariant (P := BeeLife.Inv fun n => n = fd) ?_
    (fun s i hs hok => hs.fits hF hok) hinv⟩
  intro s i t hs hok hstep
  refine hs.step (hs.fits hF hok) (fun he hl => ?_) hstep
  obtain ⟨os, rfl | rfl⟩ := he
  · exact absurd hl hok
  · exact absurd hl hok

theorem bee_calls_fit_sample : ∃ l, BeeLife.start (5 : Nat) ⟨true, true, true⟩ = .ok l ∧
    Along beeLifeStep CallFits l [.pickUp 0, .poll pollIn, .execute (.sample []) 0] := by
  have hstart : BeeLife.start (5 : Nat) ⟨true, true, true⟩ = .ok .sample := by
    unfold BeeLife.start Owned.beeCreateNewSession
    rw [accept_eq]
    rfl
  obtain ⟨l, hl, hfit⟩ := bee_calls_fit (show 0 < 5 by decide) ⟨true, true, true⟩
  cases hstart.symm.trans hl
  have hrun : (runFrom beeLifeStep .sample [.pickUp 0, .poll pollIn]).map (fun l =>
      l.conn.syncArrives (BeeCallEnv.sample []).sock) = some false := by
    decide +kernel
  refine ⟨_, hl, hfit _ ⟨trivial, fun t ht => ⟨trivial, fun u hu => ⟨?_, fun _ _ => trivial⟩⟩⟩⟩
  have hreach : runFrom beeLifeStep .sample [.pickUp 0, .poll pollIn] = some u := by
    simp only [runFrom, ht, hu]
  rw [hreach] at hrun
  exact Option.some.inj hrun

end

end Esq
