import Esq.Logger.Birth

/-!
# log の配達

file に書かれた byte と、まだ書き戻していない byte を並べると、受け取られた文字列をその順に並べたものになる。

これは呼び手の一回でも、worker の一歩でも保たれる。
止める印が立った後は何も受け取られず、最後の四回の書き戻しで buffer は空になる。
-/

namespace Esq

open Infra

/-! ## 不変量 -/

/-- worker が書き戻しの中にいるときの、その場所。 -/
def WorkerPc.flushPc : WorkerPc → Option FlushPc
  | .flush pc => some pc
  | .last _ pc => some pc
  | _ => none

/-- loop を出た後は、一回の書き戻しごとに空でない buffer がひとつ減る。 -/
def WorkerPc.LastOk (l : EsqLogger) : WorkerPc → Prop
  | .last i _ => l.stopFlag = true ∧ l.count + i ≤ logBufCnt
  | .close => l.stopFlag = true ∧ l.count = 0
  | .ended => l.stopFlag = true ∧ l.count = 0
  | _ => True

structure DeliveryInv (s : LogWorld) (older : List LogBufIdx) : Prop where
  logger : LoggerInv s.logger older
  ok : ∀ pc, s.worker.flushPc = some pc → pc.Ok s.logger older
  clean : s.logger.lastIoErrorTime = 0
  /-- 書かれたものと残りを並べると、受け取ったものになる -/
  delivered : s.logger.written.flatten ++ s.logger.unwritten older s.worker.flushPc =
    s.accepted.flatten
  last : s.worker.LastOk s.logger
  births : Births s.logger older s.birth s.accepted.length

def LogAct.Healthy : LogAct → Prop
  | .work io => io.Healthy
  | _ => True

/-- 書き戻す buffer を選ぶ step は、書き戻すものが無いのに使いかけの buffer がある所では起きない。 -/
def LogWorld.PickSafe (s : LogWorld) : LogAct → Prop
  | .work _ => s.worker.flushPc = some .pick → s.logger.Quiescent
  | _ => True

theorem deliveryInv_init : DeliveryInv .init [] where
  logger := loggerInv_init
  ok := fun _ h => nomatch h
  clean := rfl
  delivered := rfl
  last := trivial
  births := ⟨List.pairwise_singleton _ _, fun _ h => absurd h (Nat.lt_irrefl 0)⟩

section

variable {s t : LogWorld} {l l' : EsqLogger} {older older' : List LogBufIdx} {pc : FlushPc}
  {new : List UInt8} {io : LoggerIo} {a : LogAct}

/-! ## 呼び手 -/

theorem Grown.ok (h : Grown l l' older older' new) (hok : pc.Ok l older) : pc.Ok l' older' := by
  cases pc with
  | enter => trivial
  | pick => trivial
  | write offset =>
    obtain ⟨hw, hfull, ho⟩ := hok
    obtain ⟨hs, hoffset, -⟩ := h.kept _ hfull
    refine ⟨?_, ?_, ?_⟩
    · rw [h.workerIdx, h.head, hw]
    · rw [h.head, hs]
    · rw [h.head, hoffset, ho]
  | retire =>
    obtain ⟨hw, hfull⟩ := hok
    obtain ⟨hs, -, -⟩ := h.kept _ hfull
    refine ⟨?_, ?_⟩
    · rw [h.workerIdx, h.head, hw]
    · rw [h.head, hs]
  | ioError => exact hok.elim
  | dropAll => exact hok.elim

theorem Grown.unwritten (h : Grown l l' older older' new) {r : Option FlushPc}
    (hok : ∀ pc, r = some pc → pc.Ok l older) :
    l'.unwritten older' r = l.unwritten older r ++ new := by
  unfold EsqLogger.unwritten
  split
  next =>
    -- 先頭の中身は変わらないので、その後ろだけを比べてよい
    have hfull := (hok .retire rfl).2
    have hpending := h.pending
    rw [l.flatMap_window older, l'.flatMap_window older', h.head, (h.kept _ hfull).2.2,
      List.append_assoc] at hpending
    exact List.append_cancel_left hpending
  next => exact h.pending

theorem Grown.count_eq (h : Grown l l' older older' []) : l'.count = l.count :=
  EsqLogger.count_congr fun i => by rw [h.offset i]; simp

theorem LogWorld.accepted_turn (s : LogWorld) (c : Nat) (text : LogText) :
    (s.turn c text).accepted = s.accepted ++
      if (esqLogTurn s.logger text).2 = .ret esqOk then text.toList else [] := by
  unfold LogWorld.accepted LogWorld.turn
  cases (esqLogTurn s.logger text).2 with
  | wait => simp
  | again => simp
  | ret code =>
    simp only [List.filterMap_append, List.append_cancel_left_eq, LogTurn.ret.injEq]
    by_cases hcode : code = esqOk
    · cases text <;> simp [hcode]
    · simp [hcode]

theorem DeliveryInv.turn (h : DeliveryInv s older) (c : Nat) (text : LogText) :
    ∃ older', DeliveryInv (s.turn c text) older' := by
  obtain ⟨older', new, hgrown, hret⟩ := h.logger.turn text
  have haccepted : (s.turn c text).accepted.flatten = s.accepted.flatten ++ new := by
    rw [s.accepted_turn]
    rcases hret with ⟨hok, htext, -⟩ | ⟨hno, rfl⟩
    · rw [if_pos hok, htext]
      simp
    · rw [if_neg hno]
      simp
  have hbirths : Births (esqLogTurn s.logger text).1 older' (s.turn c text).birth
      (s.turn c text).accepted.length := by
    rw [s.accepted_turn]
    unfold LogWorld.turn
    rcases hret with ⟨hok, rfl, -⟩ | ⟨hno, rfl⟩
    · have hgrow := h.births.grown h.logger hgrown
      simpa [hok] using hgrow
    · have hkept := h.births.kept h.logger hgrown
      simpa [hno] using hkept
  refine ⟨older', hgrown.inv, fun pc hpc => hgrown.ok (h.ok pc hpc),
    hgrown.lastIoErrorTime.trans h.clean, ?_, ?_, hbirths⟩
  · rw [haccepted, ← h.delivered]
    show (esqLogTurn s.logger text).1.written.flatten ++ _ = _
    rw [hgrown.written, List.append_assoc]
    exact congrArg _ (hgrown.unwritten h.ok)
  · -- 止める印が立っていれば、何も受け取らない
    have hcount : s.logger.stopFlag = true →
        (esqLogTurn s.logger text).1.stopFlag = true ∧
          (esqLogTurn s.logger text).1.count = s.logger.count := by
      intro hstop
      rcases hret with ⟨-, -, -, hrun⟩ | ⟨-, rfl⟩
      · rw [hstop] at hrun
        exact nomatch hrun
      · exact ⟨hgrown.stopFlag.trans hstop, hgrown.count_eq⟩
    have hlast := h.last
    show s.worker.LastOk (esqLogTurn s.logger text).1
    unfold WorkerPc.LastOk at hlast ⊢
    split at hlast
    next =>
      obtain ⟨hstop, hle⟩ := hlast
      exact ⟨(hcount hstop).1, (hcount hstop).2 ▸ hle⟩
    next =>
      obtain ⟨hstop, hzero⟩ := hlast
      exact ⟨(hcount hstop).1, (hcount hstop).2.trans hzero⟩
    next =>
      obtain ⟨hstop, hzero⟩ := hlast
      exact ⟨(hcount hstop).1, (hcount hstop).2.trans hzero⟩
    next => trivial

/-! ## worker -/

structure Alike (l l' : EsqLogger) : Prop where
  userIdx : l'.userIdx = l.userIdx
  workerIdx : l'.workerIdx = l.workerIdx
  bufState : l'.bufState = l.bufState
  bufOffset : l'.bufOffset = l.bufOffset
  buf : l'.buf = l.buf
  written : l'.written = l.written
  lastIoErrorTime : l'.lastIoErrorTime = l.lastIoErrorTime
  stopFlag : l.stopFlag = true → l'.stopFlag = true

theorem DeliveryInv.congr (h : DeliveryInv s older) (callers : Nat → LogCaller)
    (ha : Alike s.logger l') : DeliveryInv { s with logger := l', callers := callers } older := by
  obtain ⟨hu, hw, hs, ho, hb, hwritten, hclean, hstop⟩ := ha
  have hwin : l'.window older = s.logger.window older := by unfold EsqLogger.window; rw [hu]
  have hhead : l'.head older = s.logger.head older := by unfold EsqLogger.head; rw [hu]
  have hcontent : l'.content = s.logger.content := by
    funext i
    unfold EsqLogger.content
    rw [ho, hb]
  have hcount : l'.count = s.logger.count := EsqLogger.count_congr fun i => by rw [ho]
  refine ⟨h.logger.congr hu hw hs ho, ?_, hclean.trans h.clean, ?_, ?_, ?_⟩
  · intro pc hpc
    have hok := h.ok pc hpc
    unfold FlushPc.Ok at hok ⊢
    simp only [hw, hhead, hs, ho]
    exact hok
  · show l'.written.flatten ++ l'.unwritten older s.worker.flushPc = s.accepted.flatten
    rw [← h.delivered, hwritten]
    unfold EsqLogger.unwritten
    rw [hwin, hcontent]
  · have hlast := h.last
    show s.worker.LastOk l'
    unfold WorkerPc.LastOk at hlast ⊢
    split at hlast
    next => exact ⟨hstop hlast.1, hcount ▸ hlast.2⟩
    next => exact ⟨hstop hlast.1, hcount.trans hlast.2⟩
    next => exact ⟨hstop hlast.1, hcount.trans hlast.2⟩
    next => trivial
  · obtain ⟨hordered, hbounded⟩ := h.births
    refine ⟨?_, ?_⟩
    · rw [show EsqLogger.window _ older = s.logger.window older from hwin]
      simpa only [ho] using hordered
    · intro i hi
      replace hi : 0 < (l'.bufOffset i).val := hi
      rw [ho] at hi
      exact hbounded i hi

theorem DeliveryInv.move (h : DeliveryInv s older) {worker : WorkerPc}
    (hfrom : s.worker.flushPc = none)
    (hto : worker.flushPc = none ∨ worker.flushPc = some .enter)
    (hlast : worker.LastOk s.logger) : DeliveryInv { s with worker := worker } older := by
  refine ⟨h.logger, ?_, h.clean, ?_, hlast, h.births⟩
  · intro pc hpc
    rcases hto with hto | hto
    · exact nomatch hto.symm.trans hpc
    · rw [Option.some.inj (hpc.symm.trans hto)]
      trivial
  · have hdelivered := h.delivered
    rw [hfrom] at hdelivered
    show s.logger.written.flatten ++ s.logger.unwritten older worker.flushPc = _
    rcases hto with hto | hto
    · rw [hto]
      exact hdelivered
    · rw [hto]
      exact hdelivered

theorem DeliveryInv.flush (h : DeliveryInv s older) (hpc : s.worker.flushPc = some pc)
    (hflushed : Flushed s.logger l' older older' pc none) {worker : WorkerPc}
    (hto : worker.flushPc = none ∨ worker.flushPc = some .enter)
    (hlast : worker.LastOk l') :
    DeliveryInv { s with logger := l', worker := worker } older' := by
  have hdelivered := h.delivered
  rw [hpc, ← hflushed.delivered] at hdelivered
  refine ⟨hflushed.inv, ?_, hflushed.lastIoErrorTime.trans h.clean, ?_, hlast,
    h.births.flushed hflushed⟩
  · intro pc hpc
    rcases hto with hto | hto
    · exact nomatch hto.symm.trans hpc
    · rw [Option.some.inj (hpc.symm.trans hto)]
      trivial
  · show l'.written.flatten ++ l'.unwritten older' worker.flushPc = _
    rcases hto with hto | hto
    · rw [hto]
      exact hdelivered
    · rw [hto]
      exact hdelivered

theorem DeliveryInv.flush_next (h : DeliveryInv s older) (hpc : s.worker.flushPc = some pc)
    {pc' : FlushPc} (hflushed : Flushed s.logger l' older older' pc (some pc'))
    {worker : WorkerPc} (hto : worker.flushPc = some pc') (hlast : worker.LastOk l') :
    DeliveryInv { s with logger := l', worker := worker } older' := by
  have hdelivered := h.delivered
  rw [hpc, ← hflushed.delivered] at hdelivered
  refine ⟨hflushed.inv, ?_, hflushed.lastIoErrorTime.trans h.clean, ?_, hlast,
    h.births.flushed hflushed⟩
  · intro q hq
    exact hflushed.ok q (hto.symm.trans hq)
  · show l'.written.flatten ++ l'.unwritten older' worker.flushPc = _
    rw [hto]
    exact hdelivered

theorem DeliveryInv.work (h : DeliveryInv s older) (hio : io.Healthy)
    (hq : s.worker.flushPc = some .pick → s.logger.Quiescent) {worker : WorkerPc}
    (hstep : esqLoggerWorkerStep io s.logger s.worker = some (l', worker)) :
    ∃ older', DeliveryInv { s with logger := l', worker := worker } older' := by
  have hlast := h.last
  unfold esqLoggerWorkerStep at hstep
  cases hworker : s.worker with
  | wait =>
    rw [hworker] at hstep
    dsimp only at hstep
    split at hstep
    next => exact nomatch hstep
    next =>
      cases hstep
      have hmoved : DeliveryInv { s with worker := .check } older :=
        h.move (by rw [hworker]; rfl) (Or.inl rfl) trivial
      exact ⟨older, hmoved.congr s.callers ⟨rfl, rfl, rfl, rfl, rfl, rfl, rfl, id⟩⟩
  | check =>
    rw [hworker] at hstep
    cases hstep
    refine ⟨older, h.move (by rw [hworker]; rfl) (Or.inr ?_) ?_⟩
    · by_cases hstop : s.logger.stopFlag = true
      · rw [if_pos hstop]
        rfl
      · rw [if_neg hstop]
        rfl
    · by_cases hstop : s.logger.stopFlag = true
      · rw [if_pos hstop]
        exact ⟨hstop, s.logger.count_le⟩
      · rw [if_neg hstop]
        trivial
  | flush pc =>
    rw [hworker] at hstep
    have hpc : s.worker.flushPc = some pc := by rw [hworker]; rfl
    obtain ⟨older', hflushed⟩ := h.logger.flush hio h.clean (h.ok pc hpc)
      fun he => hq (he ▸ hpc)
    dsimp only at hstep
    split at hstep
    next l₁ pc' heq =>
      cases hstep
      rw [heq] at hflushed
      exact ⟨older', h.flush_next hpc hflushed rfl trivial⟩
    next l₁ heq =>
      cases hstep
      rw [heq] at hflushed
      exact ⟨older', h.flush hpc hflushed (Or.inl rfl) trivial⟩
  | rename =>
    rw [hworker] at hstep
    have hmoved : DeliveryInv { s with worker := .wait } older :=
      h.move (by rw [hworker]; rfl) (Or.inl rfl) trivial
    dsimp only at hstep
    split at hstep
    next =>
      cases hstep
      exact ⟨older, hmoved.congr s.callers ⟨rfl, rfl, rfl, rfl, rfl, rfl, rfl, id⟩⟩
    next =>
      cases hstep
      exact ⟨older, hmoved⟩
  | last i pc =>
    rw [hworker] at hstep hlast
    obtain ⟨hstop, hle⟩ := hlast
    have hpc : s.worker.flushPc = some pc := by rw [hworker]; rfl
    obtain ⟨older', hflushed⟩ := h.logger.flush hio h.clean (h.ok pc hpc)
      fun he => hq (he ▸ hpc)
    dsimp only at hstep
    split at hstep
    next l₁ pc' heq =>
      cases hstep
      rw [heq] at hflushed
      have := hflushed.count
      exact ⟨older', h.flush_next hpc hflushed rfl
        ⟨hflushed.stopFlag.trans hstop, by omega⟩⟩
    next l₁ heq =>
      cases hstep
      rw [heq] at hflushed
      have hret := hflushed.count_ret rfl
      have hstop' := hflushed.stopFlag.trans hstop
      split
      next hi => exact ⟨older', h.flush hpc hflushed (Or.inr rfl) ⟨hstop', by omega⟩⟩
      next hi => exact ⟨older', h.flush hpc hflushed (Or.inl rfl) ⟨hstop', by omega⟩⟩
  | close =>
    rw [hworker] at hstep hlast
    cases hstep
    have hmoved : DeliveryInv { s with worker := .ended } older :=
      h.move (by rw [hworker]; rfl) (Or.inl rfl) hlast
    exact ⟨older, hmoved.congr s.callers ⟨rfl, rfl, rfl, rfl, rfl, rfl, rfl, id⟩⟩
  | ended =>
    rw [hworker] at hstep
    exact nomatch hstep

/-! ## 全体 -/

theorem LogWorld.step_call {c : Nat} {text : LogText} (h : s.step (.call c text) = some t) :
    t = { s with callers := Function.update s.callers c (.ready text) } := by
  simp only [LogWorld.step] at h
  split at h
  next => exact (Option.some.inj h).symm
  next => cases h

theorem LogWorld.step_turn {c : Nat} (h : s.step (.turn c) = some t) :
    ∃ text, s.callers c = .ready text ∧ t = s.turn c text := by
  simp only [LogWorld.step] at h
  split at h
  next text hc => exact ⟨text, hc, (Option.some.inj h).symm⟩
  next => cases h

theorem LogWorld.step_wake {c : Nat} (h : s.step (.wake c) = some t) :
    ∃ text, s.callers c = .waiting text ∧ s.logger.userSem ≠ 0 ∧ t = { s with
      logger := { s.logger with userSem := s.logger.userSem - 1 }
      callers := Function.update s.callers c (.ready text) } := by
  simp only [LogWorld.step] at h
  split at h
  next text hc =>
    split at h
    next => cases h
    next hsem => exact ⟨text, hc, hsem, (Option.some.inj h).symm⟩
  next => cases h

theorem LogWorld.step_work {io : LoggerIo} (h : s.step (.work io) = some t) :
    ∃ l pc, esqLoggerWorkerStep io s.logger s.worker = some (l, pc) ∧
      t = { s with logger := l, worker := pc } := by
  simp only [LogWorld.step] at h
  split at h
  next l pc heq => exact ⟨l, pc, heq, (Option.some.inj h).symm⟩
  next => cases h

theorem DeliveryInv.step (h : DeliveryInv s older) (hio : a.Healthy) (hsafe : s.PickSafe a)
    (hstep : s.step a = some t) : ∃ older', DeliveryInv t older' := by
  cases a with
  | call c text =>
    rw [LogWorld.step_call hstep]
    exact ⟨older, h.congr _ ⟨rfl, rfl, rfl, rfl, rfl, rfl, rfl, id⟩⟩
  | turn c =>
    obtain ⟨text, -, rfl⟩ := LogWorld.step_turn hstep
    exact h.turn c text
  | wake c =>
    obtain ⟨text, -, -, rfl⟩ := LogWorld.step_wake hstep
    exact ⟨older, h.congr _ ⟨rfl, rfl, rfl, rfl, rfl, rfl, rfl, id⟩⟩
  | work io =>
    obtain ⟨l, pc, heq, rfl⟩ := LogWorld.step_work hstep
    exact h.work hio hsafe heq
  | detach =>
    cases hstep
    exact ⟨older, h.congr s.callers
      ⟨rfl, rfl, rfl, rfl, rfl, rfl, rfl, fun _ => rfl⟩⟩
  | changeLogFile =>
    cases hstep
    exact ⟨older, h.congr s.callers ⟨rfl, rfl, rfl, rfl, rfl, rfl, rfl, id⟩⟩

end

/-! ## 受け取れる長さの文字列だけのとき -/

def LogText.Sized (text : LogText) : Prop :=
  ∃ bytes, text = some bytes ∧ 1 ≤ bytes.length ∧ bytes.length ≤ 4095

/-- 呼ばれる `esq_log` の文字列は、どれも受け取れる長さである。 -/
def LogAct.Sized : LogAct → Prop
  | .call _ text => text.Sized
  | _ => True

def LogCaller.Sized : LogCaller → Prop
  | .idle => True
  | .ready text => text.Sized
  | .waiting text => text.Sized

def EsqLogger.Used (l : EsqLogger) : Prop :=
  ∀ i, l.bufState i = .use → 0 < (l.bufOffset i).val

section

variable {s t : LogWorld} {l l' : EsqLogger} {older older' : List LogBufIdx} {pc : FlushPc}
  {text : LogText} {io : LoggerIo} {a : LogAct}

theorem EsqLogger.Used.quiescent (h : l.Used) (hinv : LoggerInv l older) : l.Quiescent := by
  intro hzero i
  cases hi : l.bufState i with
  | empty => rfl
  | use => exact absurd (h i hi) (by rw [hzero i]; exact Nat.lt_irrefl 0)
  | full => exact absurd (hinv.full_pos i hi) (by rw [hzero i]; exact Nat.lt_irrefl 0)

theorem used_format (htext : text.Sized)
    (h : ∀ i, i ≠ l.userIdx → l.bufState i = .use → 0 < (l.bufOffset i).val) :
    (esqLogFormat l text).1.Used := by
  obtain ⟨bytes, rfl, hpos, hle⟩ := htext
  have hlen : (l.vsnprintf (some bytes)).2 = bytes.length := rfl
  unfold esqLogFormat
  dsimp only
  split
  next hparam => omega
  next =>
  split
  next =>
    split
    next hsize =>
      unfold logBufSize at hsize
      omega
    next =>
      intro i hi
      by_cases hiu : i = l.userIdx
      · rw [hiu] at hi
        have hfull := (EsqLogger.setFull_self _ _).symm.trans hi
        cases hfull
      · refine h i hiu ?_
        rw [← hi]
        exact (Function.update_of_ne hiu _ _).symm
  next hfit =>
    intro i hi
    by_cases hiu : i = l.userIdx
    · show 0 < (Function.update l.bufOffset l.userIdx _ i).val
      rw [hiu, Function.update_self]
      show 0 < (l.bufOffset l.userIdx).val + (bytes.length : Int).toNat
      omega
    · show 0 < (Function.update l.bufOffset l.userIdx _ i).val
      rw [Function.update_of_ne hiu]
      exact h i hiu hi

theorem EsqLogger.Used.turn (h : l.Used) (htext : text.Sized) : (esqLogTurn l text).1.Used := by
  unfold esqLogTurn
  split
  next => exact h
  next =>
  split
  next =>
    split
    next =>
      refine used_format htext fun i hi hs => ?_
      replace hi : i ≠ esqLoggerBufNextIdx l.userIdx := hi
      show 0 < (Function.update l.bufOffset _ _ i).val
      rw [Function.update_of_ne hi]
      refine h i ?_
      rw [← hs]
      exact (Function.update_of_ne hi _ _).symm
    next => exact h
  next =>
    refine used_format htext fun i hi hs => h i ?_
    rw [← hs]
    exact (Function.update_of_ne hi _ _).symm

theorem EsqLogger.Used.flush (h : l.Used) (io : LoggerIo) (pc : FlushPc) :
    (esqLoggerFlushStep io l pc).1.Used := by
  cases pc with
  | enter =>
    unfold esqLoggerFlushStep
    dsimp only
    split
    next => exact h
    next => exact h
  | pick =>
    unfold esqLoggerFlushStep esqLoggerPick
    dsimp only
    split
    next => exact h
    next idx _ =>
      have hgrab : (l.grab idx).Used := by
        intro i hi
        by_cases hii : i = idx
        · rw [hii, l.grab_self] at hi
          exact nomatch hi
        · refine h i ?_
          rw [← hi]
          exact (Function.update_of_ne hii _ _).symm
      split
      next => exact hgrab
      next => exact hgrab
  | write offset =>
    have hdisk : (esqLoggerFlushToDisk io l l.workerIdx offset).1.Used := by
      unfold esqLoggerFlushToDisk
      by_cases hfd : l.fd = -1
      · rw [if_pos hfd]
        dsimp only
        split
        next => exact h
        next => exact h
      · rw [if_neg hfd]
        dsimp only
        split
        next => exact h
        next => exact h
    unfold esqLoggerFlushStep
    dsimp only
    split
    next => exact hdisk
    next => exact hdisk
  | retire =>
    intro i hi
    by_cases hiw : i = l.workerIdx
    · rw [hiw] at hi
      exact nomatch l.retire_self.symm.trans hi
    · show 0 < (Function.update l.bufOffset _ _ i).val
      rw [Function.update_of_ne hiw]
      refine h i ?_
      rw [← hi]
      exact (Function.update_of_ne hiw _ _).symm
  | ioError => exact h
  | dropAll => exact fun i hi => nomatch hi

theorem EsqLogger.Used.work {worker worker' : WorkerPc} (h : l.Used)
    (hstep : esqLoggerWorkerStep io l worker = some (l', worker')) : l'.Used := by
  unfold esqLoggerWorkerStep at hstep
  split at hstep
  next =>
    split at hstep
    next => exact nomatch hstep
    next =>
      cases hstep
      exact h
  next =>
    cases hstep
    exact h
  next pc =>
    have hflush := h.flush io pc
    split at hstep
    next heq =>
      cases hstep
      rw [heq] at hflush
      exact hflush
    next heq =>
      cases hstep
      rw [heq] at hflush
      exact hflush
  next =>
    split at hstep
    next =>
      cases hstep
      exact h
    next =>
      cases hstep
      exact h
  next pc =>
    have hflush := h.flush io pc
    split at hstep
    next heq =>
      cases hstep
      rw [heq] at hflush
      exact hflush
    next heq =>
      cases hstep
      rw [heq] at hflush
      exact hflush
  next =>
    cases hstep
    exact h
  next => exact nomatch hstep

/-- 受け取れる長さの文字列だけのときの、不変量。 -/
structure SizedInv (s : LogWorld) : Prop where
  delivery : ∃ older, DeliveryInv s older
  used : s.logger.Used
  callers : ∀ c, (s.callers c).Sized

theorem sizedInv_init : SizedInv .init :=
  ⟨⟨[], deliveryInv_init⟩, fun _ h => (nomatch h), fun _ => trivial⟩

theorem sized_update (h : ∀ c, (s.callers c).Sized) {c : Nat} {caller : LogCaller}
    (hc : caller.Sized) : ∀ d, (Function.update s.callers c caller d).Sized := by
  intro d
  by_cases hd : d = c
  · rw [hd, Function.update_self]
    exact hc
  · rw [Function.update_of_ne hd]
    exact h d

theorem SizedInv.step (h : SizedInv s) (ha : a.Healthy ∧ a.Sized) (hstep : s.step a = some t) :
    SizedInv t := by
  obtain ⟨older, hinv⟩ := h.delivery
  have hsafe : s.PickSafe a := by
    unfold LogWorld.PickSafe
    split
    next => exact fun _ => h.used.quiescent hinv.logger
    next => trivial
  refine ⟨hinv.step ha.1 hsafe hstep, ?_, ?_⟩
  · cases a with
    | call c text =>
      rw [LogWorld.step_call hstep]
      exact h.used
    | turn c =>
      obtain ⟨text, hc, rfl⟩ := LogWorld.step_turn hstep
      have htext := h.callers c
      rw [hc] at htext
      exact h.used.turn htext
    | wake c =>
      obtain ⟨text, -, -, rfl⟩ := LogWorld.step_wake hstep
      exact h.used
    | work io =>
      obtain ⟨l, pc, heq, rfl⟩ := LogWorld.step_work hstep
      exact h.used.work heq
    | detach =>
      cases hstep
      exact h.used
    | changeLogFile =>
      cases hstep
      exact h.used
  · cases a with
    | call c text =>
      rw [LogWorld.step_call hstep]
      exact sized_update h.callers ha.2
    | turn c =>
      obtain ⟨text, hc, rfl⟩ := LogWorld.step_turn hstep
      have htext := h.callers c
      rw [hc] at htext
      refine sized_update h.callers ?_
      cases (esqLogTurn s.logger text).2 with
      | ret code => trivial
      | wait => exact htext
      | again => exact htext
    | wake c =>
      obtain ⟨text, hc, -, rfl⟩ := LogWorld.step_wake hstep
      have htext := h.callers c
      rw [hc] at htext
      exact sized_update h.callers htext
    | work io =>
      obtain ⟨l, pc, -, rfl⟩ := LogWorld.step_work hstep
      exact h.callers
    | detach =>
      cases hstep
      exact h.callers
    | changeLogFile =>
      cases hstep
      exact h.callers

/-! ## 配達 -/

/--
**log の配達。**

呼び手が何人でも、step がどんな順でも、どの文字列も `1..4095` byte で I/O が落ちないなら、
file に書かれた byte は、`ESQ_OK` が返った文字列を lock を取った順に並べたものの先頭の部分である。
worker が終わった後は、その全部である。
-/
theorem logger_delivery {acts : List LogAct} {s : LogWorld}
    (hrun : runFrom LogWorld.step .init acts = some s) (hio : ∀ a ∈ acts, a.Healthy)
    (hsized : ∀ a ∈ acts, a.Sized) :
    s.logger.written.flatten <+: s.accepted.flatten ∧
      (s.worker = .ended → s.logger.written.flatten = s.accepted.flatten) := by
  have hinv : SizedInv s := runFrom_invariant
    (fun _ _ _ h ha hstep => h.step ha hstep) sizedInv_init
    (along_of_forall fun a ha _ => ⟨hio a ha, hsized a ha⟩) hrun
  obtain ⟨older, hdelivery⟩ := hinv.delivery
  refine ⟨⟨_, hdelivery.delivered⟩, fun hended => ?_⟩
  have hlast := hdelivery.last
  rw [hended] at hlast
  rw [← hdelivery.delivered, EsqLogger.unwritten_of_count hlast.2, List.append_nil]

/-! ## 例 -/

def LoggerIo.sample : LoggerIo where
  time := 0
  fd := 3
  write := fun n => n

theorem LoggerIo.healthy_sample : LoggerIo.sample.Healthy := ⟨by decide, fun _ => rfl⟩

def workTimes (n : Nat) : List LogAct := List.replicate n (.work .sample)

/-- 二人が一つずつ書く。間に worker が一回書き戻し、止める印が立って worker は終わる。 -/
def deliveryActs : List LogAct :=
  [.call 0 (some [97]), .turn 0] ++ workTimes 7 ++ [.call 1 (some [98, 99]), .turn 1, .detach] ++
    workTimes 13

theorem logger_delivery_sample :
    ∃ s, runFrom LogWorld.step .init deliveryActs = some s ∧ s.worker = .ended ∧
      s.logger.written.flatten <+: s.accepted.flatten ∧
      (s.worker = .ended → s.logger.written.flatten = s.accepted.flatten) := by
  have hsome : (runFrom LogWorld.step .init deliveryActs).map (fun s => s.worker) =
      some .ended := by
    decide +kernel
  obtain ⟨s, hrun, hended⟩ := Option.map_eq_some_iff.mp hsome
  refine ⟨s, hrun, hended, logger_delivery hrun ?_ ?_⟩
  · simp [deliveryActs, workTimes, LogAct.Healthy, LoggerIo.healthy_sample]
  · simp [deliveryActs, workTimes, LogAct.Sized, LogText.Sized]

end

end Esq
