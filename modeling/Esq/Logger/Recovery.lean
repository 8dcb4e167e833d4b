import Esq.Logger.Delivery

/-!
# 書けなかった後

`esq_logger_flush_one_buffer` は、書けなかった時刻を覚え、次からの書き戻しの初めに時計と比べる。
比べる向きが逆で、`IOERRORPAUSEGAP` より古い失敗があるときに、書かずにすべての buffer を捨てる。覚えた時刻は
消さないので、一度書けないと、その後の書き戻しは、しばらくして file がまた書けるようになっても捨て続ける。

どの書き戻しも一つずつ順に行われるので、その初めの時刻と、その中で書けなかったかを、実行の横に記しておく
（`FlushHistory`）。code の変数からは独立に、いつ捨ててよいかを言うためである。
-/

namespace Esq

open Infra

/-! ## 書き戻しの履歴 -/

structure FlushHistory where
  world : LogWorld
  /-- 最後に書けなかった時刻 -/
  failure : Option Int
  /-- 今の書き戻しの、初めの時刻 -/
  began : Int
  /-- 今の書き戻しの中で、書けなかった -/
  failed : Bool

def FlushHistory.init : FlushHistory where
  world := .init
  failure := none
  began := 0
  failed := false

abbrev FlushHistory.logger (h : FlushHistory) : EsqLogger := h.world.logger

def FlushHistory.record (h : FlushHistory) (io : LoggerIo) : FlushPc → FlushHistory
  | .enter => { h with began := io.time, failed := false }
  | .write offset =>
    { h with failed := (esqLoggerFlushToDisk io h.logger h.logger.workerIdx offset).2 ≠ 0 }
  | .ioError => { h with failure := some io.time }
  | .pick | .retire | .dropAll => h

def FlushHistory.note (h : FlushHistory) : LogAct → FlushHistory
  | .work io =>
    match h.world.worker.flushPc with
    | some pc => h.record io pc
    | none => h
  | _ => h

def FlushHistory.step (h : FlushHistory) (a : LogAct) : Option FlushHistory :=
  (h.world.step a).map fun world => { h.note a with world := world }

/-- 今の書き戻しの初めに、最後の失敗から `IOERRORPAUSEGAP` 秒は経っていない。 -/
def FlushHistory.Recent (h : FlushHistory) : Prop :=
  ∃ f, h.failure = some f ∧ h.began - f < ioErrorPauseGap

/-! ## 捨ててよいとき -/

/-- 書き戻す buffer。書いた後は、書いた buffer である。 -/
def EsqLogger.target (l : EsqLogger) : FlushPc → Option LogBufIdx
  | .retire => some l.workerIdx
  | _ => l.scan

def EsqLogger.Wrote (l : EsqLogger) (pc : FlushPc) (i : LogBufIdx) : Prop :=
  pc = .retire ∧ l.workerIdx = i ∧ l.written.getLast? = some (l.content i)

/-- 書き戻しの一歩の守ること。`l'` は後の logger で、`r` が `none` なら、返る。 -/
structure FlushLaw (h : FlushHistory) (pc : FlushPc) (l' : EsqLogger) (r : Option FlushPc) :
    Prop where
  /-- 捨てるのは、今の書き戻しで書けなかったか、最後の失敗から間もないときだけである -/
  kept : ∀ i, h.logger.content i ≠ [] → l'.content i = h.logger.content i ∨
    h.logger.Wrote pc i ∨ h.failed = true ∨ h.Recent
  /-- 間を置いた書き戻しは、書けるなら、その buffer を書いて返る -/
  served : r = none → h.failed = false → ¬h.Recent →
    ∀ i, h.logger.target pc = some i → h.logger.content i = [] ∨ h.logger.Wrote pc i

def FlushHistory.Lawful (h : FlushHistory) : LogAct → Prop
  | .work io => ∀ pc, h.world.worker.flushPc = some pc →
    FlushLaw h pc (esqLoggerFlushStep io h.logger pc).1 (esqLoggerFlushStep io h.logger pc).2
  | _ => True

/-- 失敗せずに `__drop_all` に来たときは、どの buffer にも中身が無い。 -/
def FlushHistory.DropsNothing (h : FlushHistory) : LogAct → Prop
  | .work _ => h.world.worker.flushPc = some .dropAll → h.failed = false →
    ∀ i, h.logger.content i = []
  | _ => True

/-! ## 呼び手は埋まった buffer に触らない -/

/-- 埋まった buffer と、worker と file の変数は変わらない。 -/
structure Untouched (l l' : EsqLogger) : Prop where
  workerIdx : l'.workerIdx = l.workerIdx
  written : l'.written = l.written
  lastIoErrorTime : l'.lastIoErrorTime = l.lastIoErrorTime
  full : ∀ i, l.bufState i = .full →
    l'.bufState i = .full ∧ l'.bufOffset i = l.bufOffset i ∧ l'.content i = l.content i

section

variable {l l₁ l₂ : EsqLogger} {text : LogText} {i : LogBufIdx}

theorem Untouched.of_eq (hw : l₁.workerIdx = l.workerIdx) (hwritten : l₁.written = l.written)
    (ht : l₁.lastIoErrorTime = l.lastIoErrorTime) (hs : l₁.bufState = l.bufState)
    (ho : l₁.bufOffset = l.bufOffset) (hb : l₁.buf = l.buf) : Untouched l l₁ := by
  refine ⟨hw, hwritten, ht, fun i hi => ⟨hs ▸ hi, by rw [ho], ?_⟩⟩
  unfold EsqLogger.content
  rw [ho, hb]

theorem Untouched.refl (l : EsqLogger) : Untouched l l := .of_eq rfl rfl rfl rfl rfl rfl

theorem Untouched.trans (h : Untouched l l₁) (h' : Untouched l₁ l₂) : Untouched l l₂ where
  workerIdx := h'.workerIdx.trans h.workerIdx
  written := h'.written.trans h.written
  lastIoErrorTime := h'.lastIoErrorTime.trans h.lastIoErrorTime
  full := by
    intro i hi
    obtain ⟨hs, ho, hc⟩ := h.full i hi
    obtain ⟨hs', ho', hc'⟩ := h'.full i hs
    exact ⟨hs', ho'.trans ho, hc'.trans hc⟩

theorem untouched_update (s : LogBufState) (hi : l.bufState i ≠ .full) :
    Untouched l { l with bufState := Function.update l.bufState i s } := by
  refine ⟨rfl, rfl, rfl, fun j hj => ⟨?_, rfl, rfl⟩⟩
  rw [← hj]
  exact Function.update_of_ne (fun he : j = i => hi (he ▸ hj)) _ _

theorem untouched_vsnprintf (l : EsqLogger) (text : LogText) :
    Untouched l (l.vsnprintf text).1 :=
  ⟨rfl, rfl, rfl, fun i hi => ⟨hi, rfl, l.content_vsnprintf text i⟩⟩

theorem untouched_accept {n : Nat} (hu : l.bufState l.userIdx ≠ .full)
    (hfit : (l.bufOffset l.userIdx).val + n < logBufSize) : Untouched l (l.accept n hfit) := by
  refine ⟨rfl, rfl, rfl, fun i hi => ?_⟩
  have hiu : i ≠ l.userIdx := fun he => hu (he ▸ hi)
  have ho : (l.accept n hfit).bufOffset i = l.bufOffset i := Function.update_of_ne hiu _ _
  refine ⟨hi, ho, ?_⟩
  unfold EsqLogger.content
  rw [ho]
  rfl

theorem untouched_format (hu : l.bufState l.userIdx ≠ .full) (text : LogText) :
    Untouched l (esqLogFormat l text).1 := by
  have hprint := untouched_vsnprintf l text
  unfold esqLogFormat
  dsimp only
  split
  next => exact hprint
  next =>
  split
  next =>
    split
    next => exact hprint
    next => exact hprint.trans (untouched_update .full hu)
  next =>
    have hu' : (l.vsnprintf text).1.bufState (l.vsnprintf text).1.userIdx ≠ .full := hu
    exact hprint.trans (untouched_accept hu' _)

theorem untouched_turn (l : EsqLogger) (text : LogText) :
    Untouched l (esqLogTurn l text).1 := by
  unfold esqLogTurn
  split
  next => exact .refl l
  next =>
  split
  next =>
    split
    next hempty =>
      have hne : l.bufState (esqLoggerBufNextIdx l.userIdx) ≠ .full := by
        rw [hempty]
        decide
      have hadvance : Untouched l l.advance := by
        refine ⟨rfl, rfl, rfl, fun i hi => ?_⟩
        have hin : i ≠ esqLoggerBufNextIdx l.userIdx := fun he => hne (he ▸ hi)
        have ho : l.advance.bufOffset i = l.bufOffset i := Function.update_of_ne hin _ _
        refine ⟨(Function.update_of_ne hin _ _).trans hi, ho, ?_⟩
        unfold EsqLogger.content
        rw [ho]
        rfl
      refine hadvance.trans (untouched_format ?_ text)
      rw [show l.advance.bufState l.advance.userIdx = .use from Function.update_self _ _ _]
      decide
    next => exact .of_eq rfl rfl rfl rfl rfl rfl
  next hfull =>
    have hclaim : Untouched l l.claim := untouched_update .use hfull
    refine hclaim.trans (untouched_format ?_ text)
    rw [show l.claim.bufState l.claim.userIdx = .use from Function.update_self _ _ _]
    decide

end

/-! ## 履歴の不変量 -/

def FlushHistory.Knows (h : FlushHistory) : FlushPc → Prop
  | .enter | .pick => True
  | .write offset => h.logger.bufState h.logger.workerIdx = .full ∧
      offset = (h.logger.bufOffset h.logger.workerIdx).val
  | .retire => h.logger.bufState h.logger.workerIdx = .full ∧
      h.logger.Wrote .retire h.logger.workerIdx
  | .ioError => h.failed = true
  -- 失敗せずに来たのは、最後の失敗が古いからである
  | .dropAll => h.failed = false → ¬h.Recent

structure RecoveryInv (h : FlushHistory) : Prop where
  /-- 覚えた時刻は、最後に書けなかった時刻である -/
  time : h.logger.lastIoErrorTime = h.failure.getD 0
  knows : ∀ pc, h.world.worker.flushPc = some pc → h.Knows pc

section

variable {h h' : FlushHistory} {s t : LogWorld} {l l' : EsqLogger} {pc : FlushPc}
  {io : LoggerIo} {a : LogAct}

theorem recoveryInv_init : RecoveryInv .init where
  time := rfl
  knows := fun _ h => by cases h

theorem RecoveryInv.untouched (hinv : RecoveryInv h) (hu : Untouched h.logger t.logger)
    (hworker : t.worker = h.world.worker) : RecoveryInv { h with world := t } := by
  obtain ⟨hidx, hwritten, htime, hfull⟩ := hu
  refine ⟨htime.trans hinv.time, fun pc hpc => ?_⟩
  have hknows := hinv.knows pc (hworker ▸ hpc)
  cases pc with
  | enter => trivial
  | pick => trivial
  | write offset =>
    obtain ⟨hs, ho⟩ := hknows
    obtain ⟨hs', ho', -⟩ := hfull _ hs
    rw [← hidx] at hs' ho'
    exact ⟨hs', ho.trans (by rw [ho', hidx])⟩
  | retire =>
    obtain ⟨hs, -, -, hlast⟩ := hknows
    obtain ⟨hs', -, hc'⟩ := hfull _ hs
    rw [← hidx] at hs' hc'
    refine ⟨hs', rfl, rfl, ?_⟩
    show t.logger.written.getLast? = some (t.logger.content t.logger.workerIdx)
    rw [hwritten, hc', hlast, hidx]
  | ioError => exact hknows
  | dropAll => exact hknows

theorem RecoveryInv.outside (htime : t.logger.lastIoErrorTime = h.failure.getD 0)
    (hworker : t.worker.flushPc = none ∨ t.worker.flushPc = some .enter) :
    RecoveryInv { h with world := t } := by
  refine ⟨htime, fun pc hpc => ?_⟩
  rcases hworker with hworker | hworker
  · cases hworker.symm.trans hpc
  · cases hworker.symm.trans hpc
    trivial

/-! ## worker の一歩 -/

theorem worker_outside (hpc : s.worker.flushPc = none) (hs : s.step (.work io) = some t) :
    t.logger.lastIoErrorTime = s.logger.lastIoErrorTime ∧
      (t.worker.flushPc = none ∨ t.worker.flushPc = some .enter) := by
  obtain ⟨l, worker, hstep, rfl⟩ := LogWorld.step_work hs
  unfold esqLoggerWorkerStep at hstep
  cases hworker : s.worker with
  | wait =>
    rw [hworker] at hstep
    dsimp only at hstep
    split at hstep
    · cases hstep
    · cases hstep
      exact ⟨rfl, Or.inl rfl⟩
  | check =>
    rw [hworker] at hstep
    cases hstep
    refine ⟨rfl, Or.inr ?_⟩
    show (if s.logger.stopFlag = true then WorkerPc.last 0 .enter else .flush .enter).flushPc = _
    split <;> rfl
  | flush pc =>
    rw [hworker] at hpc
    cases hpc
  | rename =>
    rw [hworker] at hstep
    dsimp only at hstep
    split at hstep <;>
    · cases hstep
      exact ⟨rfl, Or.inl rfl⟩
  | last i pc =>
    rw [hworker] at hpc
    cases hpc
  | close =>
    rw [hworker] at hstep
    cases hstep
    exact ⟨rfl, Or.inl rfl⟩
  | ended =>
    rw [hworker] at hstep
    cases hstep

theorem worker_inside (hpc : s.worker.flushPc = some pc) (hs : s.step (.work io) = some t) :
    t.logger = (esqLoggerFlushStep io s.logger pc).1 ∧
      ((esqLoggerFlushStep io s.logger pc).2 = none ∧
          (t.worker.flushPc = none ∨ t.worker.flushPc = some .enter) ∨
        (esqLoggerFlushStep io s.logger pc).2 ≠ none ∧
          t.worker.flushPc = (esqLoggerFlushStep io s.logger pc).2) := by
  obtain ⟨l, worker, hstep, rfl⟩ := LogWorld.step_work hs
  unfold esqLoggerWorkerStep at hstep
  cases hworker : s.worker with
  | flush pc' =>
    rw [hworker] at hpc hstep
    obtain rfl : pc' = pc := Option.some.inj hpc
    dsimp only at hstep
    split at hstep
    next heq =>
      cases hstep
      rw [heq]
      exact ⟨rfl, Or.inr ⟨Option.some_ne_none _, rfl⟩⟩
    next heq =>
      cases hstep
      rw [heq]
      exact ⟨rfl, Or.inl ⟨rfl, Or.inl rfl⟩⟩
  | last i pc' =>
    rw [hworker] at hpc hstep
    obtain rfl : pc' = pc := Option.some.inj hpc
    dsimp only at hstep
    split at hstep
    next heq =>
      cases hstep
      rw [heq]
      exact ⟨rfl, Or.inr ⟨Option.some_ne_none _, rfl⟩⟩
    next heq =>
      cases hstep
      rw [heq]
      refine ⟨rfl, Or.inl ⟨rfl, ?_⟩⟩
      dsimp only
      split
      · exact Or.inr rfl
      · exact Or.inl rfl
  | wait | check | rename | close | ended =>
    rw [hworker] at hpc
    cases hpc

theorem flushToDisk_ok {i : LogBufIdx} {n : Nat} (hr : (esqLoggerFlushToDisk io l i n).2 = 0) :
    (esqLoggerFlushToDisk io l i n).1.written = l.written ++ [(l.buf i).bytes.take n] := by
  unfold esqLoggerFlushToDisk at hr ⊢
  dsimp only at hr ⊢
  obtain ⟨opened, hopened⟩ : ∃ opened : EsqLogger, opened = if l.fd = -1 then
      { l with fd := io.fd, filenameIdx := if l.filenameIdx + 1 > 9999 then 0 else l.filenameIdx + 1 }
    else l := ⟨_, rfl⟩
  have hsame : opened.written = l.written ∧ opened.buf = l.buf := by
    rw [hopened]
    split <;> exact ⟨rfl, rfl⟩
  rw [← hopened] at hr ⊢
  by_cases hfd : opened.fd = -1
  · rw [if_pos hfd] at hr
    cases hr
  · rw [if_neg hfd] at hr ⊢
    by_cases hn : io.write n = n
    · show opened.written ++ [((opened.buf i).bytes.take n).take (io.write n).toNat] = _
      rw [hn, Int.toNat_natCast, List.take_take, min_self, hsame.1, hsame.2]
    · simp only [if_neg hn] at hr
      cases hr

theorem flushToDisk_frame (io : LoggerIo) (l : EsqLogger) (i : LogBufIdx) (n : Nat) :
    (esqLoggerFlushToDisk io l i n).1.buf = l.buf ∧
      (esqLoggerFlushToDisk io l i n).1.bufOffset = l.bufOffset ∧
      (esqLoggerFlushToDisk io l i n).1.bufState = l.bufState ∧
      (esqLoggerFlushToDisk io l i n).1.workerIdx = l.workerIdx ∧
      (esqLoggerFlushToDisk io l i n).1.lastIoErrorTime = l.lastIoErrorTime := by
  unfold esqLoggerFlushToDisk
  by_cases hfd : l.fd = -1
  · by_cases hio : io.fd = -1
    · simp [hfd, hio]
    · simp [hfd, hio]
  · simp [hfd]

theorem RecoveryInv.record_time (hinv : RecoveryInv h) (io : LoggerIo) (pc : FlushPc) :
    (esqLoggerFlushStep io h.logger pc).1.lastIoErrorTime = (h.record io pc).failure.getD 0 := by
  cases pc with
  | enter =>
    unfold esqLoggerFlushStep
    dsimp only
    split <;> exact hinv.time
  | pick =>
    show (esqLoggerPick h.logger).1.lastIoErrorTime = _
    unfold esqLoggerPick
    split
    · exact hinv.time
    · dsimp only
      split <;> exact hinv.time
  | write offset =>
    obtain ⟨-, -, -, -, htime⟩ := flushToDisk_frame io h.logger h.logger.workerIdx offset
    unfold esqLoggerFlushStep
    dsimp only
    split <;> exact htime.trans hinv.time
  | retire => exact hinv.time
  | ioError => rfl
  | dropAll => exact hinv.time

theorem RecoveryInv.record_knows (hinv : RecoveryInv h) (hknows : h.Knows pc)
    (hl : t.logger = (esqLoggerFlushStep io h.logger pc).1) {next : FlushPc}
    (hr : (esqLoggerFlushStep io h.logger pc).2 = some next) :
    ({ h.record io pc with world := t } : FlushHistory).Knows next := by
  cases pc with
  | enter =>
    unfold esqLoggerFlushStep at hr
    dsimp only at hr
    split at hr
    · next hlate =>
      obtain rfl := Option.some.inj hr
      rintro - ⟨f, hf, hrecent⟩
      have htime := hinv.time
      rw [show h.failure = some f from hf, Option.getD_some] at htime
      replace hrecent : io.time - f < ioErrorPauseGap := hrecent
      omega
    · obtain rfl := Option.some.inj hr
      trivial
  | pick =>
    replace hl : t.logger = (esqLoggerPick h.logger).1 := hl
    replace hr : (esqLoggerPick h.logger).2 = some next := hr
    unfold esqLoggerPick at hl hr
    cases hscan : h.logger.scan with
    | none =>
      rw [hscan] at hr
      cases hr
    | some idx =>
      rw [hscan] at hl hr
      dsimp only at hl hr
      by_cases hzero : ((h.logger.grab idx).bufOffset idx).val = 0
      · rw [if_pos hzero] at hr
        cases hr
      · rw [if_neg hzero] at hl hr
        obtain rfl := Option.some.inj hr
        show t.logger.bufState t.logger.workerIdx = .full ∧
          ((h.logger.grab idx).bufOffset idx).val = (t.logger.bufOffset t.logger.workerIdx).val
        rw [hl]
        exact ⟨h.logger.grab_self idx, rfl⟩
  | write offset =>
    obtain ⟨hfull, rfl⟩ := hknows
    obtain ⟨hbuf, hoffset, hstate, hidx, -⟩ := flushToDisk_frame io h.logger
      h.logger.workerIdx (h.logger.bufOffset h.logger.workerIdx).val
    unfold esqLoggerFlushStep at hl hr
    dsimp only at hl hr
    split at hr
    · next hne =>
      obtain rfl := Option.some.inj hr
      exact decide_eq_true hne
    · next hok =>
      rw [if_neg hok] at hl
      obtain rfl := Option.some.inj hr
      -- 書いたのは、worker の buffer の中身である
      have hlast : t.logger.written.getLast? = some (h.logger.content h.logger.workerIdx) := by
        rw [hl, flushToDisk_ok (not_not.mp hok), List.getLast?_append]
        rfl
      have hcontent : t.logger.content t.logger.workerIdx
          = h.logger.content h.logger.workerIdx := by
        unfold EsqLogger.content
        rw [hl, hidx, hbuf, hoffset]
      refine ⟨?_, rfl, rfl, hlast.trans (congrArg some hcontent.symm)⟩
      show t.logger.bufState t.logger.workerIdx = .full
      rw [hl, hidx, hstate]
      exact hfull
  | retire => cases hr
  | ioError =>
    obtain rfl := Option.some.inj hr
    intro hfalse
    cases (show h.failed = true from hknows).symm.trans hfalse
  | dropAll => cases hr

/-- **書き戻しの一歩は、履歴の不変量を保つ。** -/
theorem RecoveryInv.flush (hinv : RecoveryInv h) (hpc : h.world.worker.flushPc = some pc)
    (hs : h.world.step (.work io) = some t) :
    RecoveryInv { h.record io pc with world := t } := by
  obtain ⟨hl, hret⟩ := worker_inside hpc hs
  have htime := (congrArg EsqLogger.lastIoErrorTime hl).trans (hinv.record_time io pc)
  rcases hret with ⟨-, hout⟩ | ⟨-, hnext⟩
  · exact .outside htime hout
  · exact ⟨htime, fun next hpc' =>
      hinv.record_knows (hinv.knows pc hpc) hl (hnext.symm.trans hpc')⟩

/-- **起こることは、どれも履歴の不変量を保つ。** -/
theorem RecoveryInv.step (hinv : RecoveryInv h) (hs : h.step a = some h') : RecoveryInv h' := by
  obtain ⟨t, ht, rfl⟩ := Option.map_eq_some_iff.mp hs
  cases a with
  | call c text =>
    rw [LogWorld.step_call ht]
    exact hinv.untouched (.refl _) rfl
  | turn c =>
    obtain ⟨text, -, rfl⟩ := LogWorld.step_turn ht
    exact hinv.untouched (untouched_turn _ text) rfl
  | wake c =>
    obtain ⟨text, -, -, rfl⟩ := LogWorld.step_wake ht
    exact hinv.untouched (.of_eq rfl rfl rfl rfl rfl rfl) rfl
  | work io =>
    cases hpc : h.world.worker.flushPc with
    | none =>
      obtain ⟨htime, hout⟩ := worker_outside hpc ht
      simp only [FlushHistory.note, hpc]
      exact .outside (htime.trans hinv.time) hout
    | some pc =>
      simp only [FlushHistory.note, hpc]
      exact hinv.flush hpc ht
  | detach =>
    cases ht
    exact hinv.untouched (.of_eq rfl rfl rfl rfl rfl rfl) rfl
  | changeLogFile =>
    cases ht
    exact hinv.untouched (.of_eq rfl rfl rfl rfl rfl rfl) rfl

/-! ## 守るとき -/

theorem RecoveryInv.law (hinv : RecoveryInv h) (hpc : h.world.worker.flushPc = some pc)
    (hne : pc ≠ .dropAll) :
    FlushLaw h pc (esqLoggerFlushStep io h.logger pc).1 (esqLoggerFlushStep io h.logger pc).2 := by
  cases pc with
  | enter =>
    unfold esqLoggerFlushStep
    dsimp only
    split <;> exact ⟨fun i _ => Or.inl rfl, fun hr => by cases hr⟩
  | pick =>
    show FlushLaw h .pick (esqLoggerPick h.logger).1 (esqLoggerPick h.logger).2
    unfold esqLoggerPick
    cases hscan : h.logger.scan with
    | none =>
      refine ⟨fun i _ => Or.inl rfl, fun _ _ _ i hi => ?_⟩
      cases hscan.symm.trans hi
    | some idx =>
      dsimp only
      split
      · next hzero =>
        refine ⟨fun i _ => Or.inl rfl, fun _ _ _ i hi => Or.inl ?_⟩
        obtain rfl := Option.some.inj (hscan.symm.trans hi)
        replace hzero : (h.logger.bufOffset idx).val = 0 := hzero
        unfold EsqLogger.content
        rw [hzero, List.take_zero]
      · exact ⟨fun i _ => Or.inl rfl, fun hr => by cases hr⟩
  | write offset =>
    obtain ⟨hbuf, hoffset, -, -, -⟩ := flushToDisk_frame io h.logger h.logger.workerIdx offset
    have hcontent : ∀ i, (esqLoggerFlushToDisk io h.logger h.logger.workerIdx offset).1.content i
        = h.logger.content i := by
      intro i
      unfold EsqLogger.content
      rw [hbuf, hoffset]
    unfold esqLoggerFlushStep
    dsimp only
    split <;> exact ⟨fun i _ => Or.inl (hcontent i), fun hr => by cases hr⟩
  | retire =>
    obtain ⟨-, hwrote⟩ := hinv.knows _ hpc
    refine ⟨fun i _ => ?_, fun _ _ _ i hi => ?_⟩
    · by_cases hi : i = h.logger.workerIdx
      · exact Or.inr (Or.inl (hi ▸ hwrote))
      · left
        show (h.logger.buf i).bytes.take (Function.update h.logger.bufOffset _ _ i) = _
        rw [Function.update_of_ne hi]
        rfl
    · obtain rfl := Option.some.inj hi
      exact Or.inr hwrote
  | ioError => exact ⟨fun i _ => Or.inl rfl, fun hr => by cases hr⟩
  | dropAll => exact absurd rfl hne

theorem RecoveryInv.law_dropAll_iff (hinv : RecoveryInv h)
    (hpc : h.world.worker.flushPc = some .dropAll) :
    FlushLaw h .dropAll (esqLoggerFlushStep io h.logger .dropAll).1
        (esqLoggerFlushStep io h.logger .dropAll).2 ↔
      (h.failed = false → ∀ i, h.logger.content i = []) := by
  have hdropped : ∀ i, (esqLoggerFlushStep io h.logger .dropAll).1.content i = [] := fun _ =>
    List.take_zero
  have hnotWrote : ∀ i, ¬h.logger.Wrote .dropAll i := fun i hw => by cases hw.1
  constructor
  · intro hlaw hok i
    by_contra hne
    rcases hlaw.kept i hne with hsame | hwrote | hfailed | hrecent
    · exact hne (hsame.symm.trans (hdropped i))
    · exact hnotWrote i hwrote
    · rw [hok] at hfailed
      cases hfailed
    · exact hinv.knows _ hpc hok hrecent
  · intro hnil
    refine ⟨fun i hne => ?_, fun _ hok _ i _ => Or.inl (hnil hok i)⟩
    cases hfailed : h.failed with
    | true => exact Or.inr (Or.inr (Or.inl rfl))
    | false => exact absurd (hnil hfailed i) hne

theorem RecoveryInv.lawful_iff (hinv : RecoveryInv h) (a : LogAct) :
    h.Lawful a ↔ h.DropsNothing a := by
  cases a with
  | work io =>
    constructor
    · intro hlaw hpc
      exact (hinv.law_dropAll_iff hpc).mp (hlaw _ hpc)
    · intro hdrop pc hpc
      by_cases hne : pc = .dropAll
      · subst hne
        exact (hinv.law_dropAll_iff hpc).mpr (hdrop hpc)
      · exact hinv.law hpc hne
  | call | turn | wake | detach | changeLogFile => exact Iff.rfl

end

/--
**書けなかった後の書き戻しが、捨ててよいときにだけ捨てるための、ちょうどの条件。**

最後に書けなかった時刻から `IOERRORPAUSEGAP` 秒より後に始まった書き戻しが `__drop_all` に来たとき、どの
buffer にも中身が無いこと。
-/
theorem log_recovery_iff (acts : List LogAct) :
    Along FlushHistory.step FlushHistory.Lawful .init acts ↔
      Along FlushHistory.step FlushHistory.DropsNothing .init acts :=
  along_congr (fun _ _ _ hinv hs => RecoveryInv.step hinv hs)
    (fun _ a hinv => hinv.lawful_iff a) recoveryInv_init

def LoggerIo.broken : LoggerIo where
  time := 1
  fd := 3
  write := fun _ => -1

def LoggerIo.repaired : LoggerIo where
  time := 1000
  fd := 3
  write := fun n => n

/-- 初めの文字列が書けなかった後、直った file に次の文字列を書き戻す。 -/
def repairedActs : List LogAct :=
  [.call 0 (some [97]), .turn 0] ++ List.replicate 8 (.work .broken) ++
    [.call 0 (some [98]), .turn 0] ++ List.replicate 3 (.work .repaired)

/-- **直った file への書き戻しが、受け取った文字列を捨てる。** -/
theorem repaired_flush_drops :
    LoggerIo.repaired.Healthy ∧
      ¬Along FlushHistory.step FlushHistory.Lawful .init
        (repairedActs ++ [.work .repaired]) := by
  refine ⟨⟨by decide, fun _ => rfl⟩, fun h => ?_⟩
  have hsome : (runFrom FlushHistory.step .init repairedActs).map (fun h =>
      decide (h.world.worker.flushPc = some .dropAll ∧ h.failed = false ∧
        (h.logger.bufOffset ⟨0, by decide⟩).val = 1)) = some true := by
    decide +kernel
  obtain ⟨s, hrun, hall⟩ := Option.map_eq_some_iff.mp hsome
  obtain ⟨hpc, hok, hone⟩ := of_decide_eq_true hall
  have hinv : RecoveryInv s :=
    runFrom_invariant' (fun _ _ _ hinv hs => hinv.step hs) recoveryInv_init hrun
  have hlaw := (h.of_append hrun).1 .dropAll hpc
  have hnil := (hinv.law_dropAll_iff hpc).mp hlaw hok ⟨0, by decide⟩
  have hlen := congrArg List.length hnil
  rw [EsqLogger.content, hone, List.length_take, LogBuf.length_bytes] at hlen
  cases hlen

end Esq
