import Esq.Logger.Delivery

/-!
# 書き戻しの順

中身のある buffer が一つでもあれば、次の `esq_logger_flush_one_buffer` は最も古い buffer を書く。

断られた文字列は、buffer を使いかけのまま空で残す。書き戻すものが無いときに worker がそれを取ると、
空のまま埋まったことになり、呼び手が隣へ移った後も、探し方はいつもそこで止まる。
worker がそれを取らない限り、上のことは成り立つ。
-/

namespace Esq

open Infra

/-- `i` は、中身のある buffer のうち最も古い。 -/
def LogWorld.Oldest (s : LogWorld) (i : LogBufIdx) : Prop :=
  0 < (s.logger.bufOffset i).val ∧
    ∀ j, 0 < (s.logger.bufOffset j).val → s.birth i ≤ s.birth j

def flushRun (io : LoggerIo) : Nat → EsqLogger → FlushPc → EsqLogger
  | 0, l, _ => l
  | n + 1, l, pc => match esqLoggerFlushStep io l pc with
    | (l, none) => l
    | (l, some pc) => flushRun io n l pc

/-- `esq_logger_flush_one_buffer`。どの道でも五歩までに返る。 -/
def esqLoggerFlushOneBuffer (io : LoggerIo) (l : EsqLogger) : EsqLogger :=
  flushRun io 5 l .enter

/--
中身のある buffer があれば、書き戻しは最も古い buffer の中身を書く。

書いている途中なら、今の書き戻しが書くものがそれである。
書き終えて空ける前なら、次の書き戻しは空けた後に始まる。
-/
def LogWorld.FlushWritesOldest (s : LogWorld) : Prop :=
  ∀ io : LoggerIo, io.Healthy → (∃ i, 0 < (s.logger.bufOffset i).val) →
    match s.worker.flushPc with
    | some (.write offset) => ∃ i, s.Oldest i ∧
        (esqLoggerFlushStep io s.logger (.write offset)).1.written =
          s.logger.written ++ [s.logger.content i]
    | some .retire => True
    | _ => ∃ i, s.Oldest i ∧
        (esqLoggerFlushOneBuffer io s.logger).written = s.logger.written ++ [s.logger.content i]

section

variable {s : LogWorld} {l : EsqLogger} {older : List LogBufIdx} {io : LoggerIo}

theorem flushStep_write (hio : io.Healthy) {offset : Nat} {i : LogBufIdx}
    (hw : l.workerIdx = i) (ho : offset = (l.bufOffset i).val) :
    (esqLoggerFlushStep io l (.write offset)).1.written = l.written ++ [l.content i] ∧
      (esqLoggerFlushStep io l (.write offset)).2 = some .retire := by
  obtain ⟨fd, filenameIdx, hdisk⟩ := flushToDisk_healthy hio l l.workerIdx offset
  unfold esqLoggerFlushStep
  dsimp only
  rw [hdisk, if_neg (by simp), hw, ho]
  exact ⟨rfl, rfl⟩

theorem flushRun_write (hio : io.Healthy) {offset : Nat} {i : LogBufIdx}
    (hw : l.workerIdx = i) (ho : offset = (l.bufOffset i).val) (n : Nat) :
    (flushRun io (n + 2) l (.write offset)).written = l.written ++ [l.content i] := by
  have hwrite := flushStep_write hio hw ho
  rcases hstep : esqLoggerFlushStep io l (.write offset) with ⟨l', r⟩
  rw [hstep] at hwrite
  obtain ⟨hwritten, rfl⟩ : l'.written = l.written ++ [l.content i] ∧ r = some .retire := hwrite
  simp only [flushRun, hstep]
  exact hwritten

theorem LoggerInv.flushOneBuffer (h : LoggerInv l older) (hio : io.Healthy)
    (hclean : l.lastIoErrorTime = 0) (hpos : 0 < (l.bufOffset (l.head older)).val) :
    (esqLoggerFlushOneBuffer io l).written = l.written ++ [l.content (l.head older)] := by
  have henter : esqLoggerFlushStep io l .enter = (l, some .pick) :=
    if_neg fun hlate => hlate.1 hclean
  have hpick : esqLoggerFlushStep io l .pick =
      (l.grab (l.head older), some (.write (l.bufOffset (l.head older)).val)) := h.pick_head hpos
  unfold esqLoggerFlushOneBuffer
  rw [flushRun, henter]
  dsimp only
  rw [flushRun, hpick]
  exact flushRun_write (l := l.grab (l.head older)) hio rfl rfl 1

theorem DeliveryInv.oldest (h : DeliveryInv s older)
    (hpos : 0 < (s.logger.bufOffset (s.logger.head older)).val) :
    s.Oldest (s.logger.head older) :=
  ⟨hpos, fun _ hj => h.births.head_le h.logger hj⟩

theorem DeliveryInv.head_pos (h : DeliveryInv s older)
    (hsome : ∃ i, 0 < (s.logger.bufOffset i).val) :
    0 < (s.logger.bufOffset (s.logger.head older)).val := by
  obtain ⟨i, hi⟩ := hsome
  refine h.logger.head_pos (fun hzero => absurd (hzero i) (by omega)) fun he => ?_
  have := h.logger.empty_zero i (h.logger.all_empty he i)
  omega

theorem DeliveryInv.flushWritesOldest (h : DeliveryInv s older) : s.FlushWritesOldest := by
  intro io hio hsome
  have hpos := h.head_pos hsome
  have hcall := h.logger.flushOneBuffer hio h.clean hpos
  split
  next offset hpc =>
    obtain ⟨hw, -, ho⟩ := h.ok _ hpc
    exact ⟨_, h.oldest hpos, (flushStep_write hio hw ho).1⟩
  next => trivial
  next => exact ⟨_, h.oldest hpos, hcall⟩

end

/--
**書き戻しの順。**

I/O が落ちず、書き戻すものが無いのに使いかけの buffer がある所で worker が buffer を選ばなければ、
着くどの状態でも、次の書き戻しは中身のある buffer のうち最も古いものを書く。
-/
theorem flush_writes_oldest {acts : List LogAct} {s : LogWorld}
    (hrun : runFrom LogWorld.step .init acts = some s) (hio : ∀ a ∈ acts, a.Healthy)
    (hsafe : Along LogWorld.step LogWorld.PickSafe .init acts) : s.FlushWritesOldest := by
  have hok : Along LogWorld.step (fun s a => a.Healthy ∧ s.PickSafe a) .init acts :=
    (along_of_forall fun a ha _ => hio a ha).and hsafe
  have hstep : ∀ s a t, (∃ older, DeliveryInv s older) → a.Healthy ∧ s.PickSafe a →
      s.step a = some t → ∃ older, DeliveryInv t older := by
    rintro s a t ⟨older, h⟩ ⟨ha, hpick⟩ ht
    exact h.step ha hpick ht
  obtain ⟨older, hinv⟩ := runFrom_invariant hstep ⟨[], deliveryInv_init⟩ hok hrun
  exact hinv.flushWritesOldest

/-! ## 例 -/

instance (l : EsqLogger) : Decidable l.Quiescent :=
  inferInstanceAs (Decidable ((∀ i, (l.bufOffset i).val = 0) → ∀ i, l.bufState i = .empty))

instance (s : LogWorld) : ∀ a, Decidable (s.PickSafe a)
  | .work _ => inferInstanceAs (Decidable (s.worker.flushPc = some .pick → s.logger.Quiescent))
  | .call _ _ => isTrue trivial
  | .turn _ => isTrue trivial
  | .wake _ => isTrue trivial
  | .detach => isTrue trivial
  | .changeLogFile => isTrue trivial

/-- 断られた後で受け取ってから、worker が一回書き戻す。 -/
def pickSafeActs : List LogAct :=
  [.call 0 (some []), .turn 0, .call 0 (some [97]), .turn 0] ++ workTimes 4 ++
    [.call 1 (some [98]), .turn 1]

theorem flush_writes_oldest_sample :
    ∃ s, runFrom LogWorld.step .init pickSafeActs = some s ∧ s.FlushWritesOldest := by
  have hsome : (runFrom LogWorld.step .init pickSafeActs).isSome = true := by decide +kernel
  obtain ⟨s, hrun⟩ := Option.isSome_iff_exists.mp hsome
  refine ⟨s, hrun, flush_writes_oldest hrun ?_ ?_⟩
  · simp [pickSafeActs, workTimes, LogAct.Healthy, LoggerIo.healthy_sample]
  · decide +kernel

/-! ## 詰まるとき -/

/--
受け取った二つを一回で書き戻した後、断られた文字列が空の buffer を使いかけにする。
残りの `sem_post` で起きた worker がそれを取り、次の文字列は隣の buffer に入る。
-/
def stuckActs : List LogAct :=
  [.call 0 (some [97]), .turn 0, .call 0 (some [98]), .turn 0] ++ workTimes 7 ++
    [.call 0 (some []), .turn 0] ++ workTimes 5 ++ [.call 0 (some [99]), .turn 0]

/-- I/O が落ちず、止められてもいないのに、書き戻しは残った byte を書かない。 -/
theorem flush_stuck : ¬ ∀ (acts : List LogAct) (s : LogWorld),
    runFrom LogWorld.step .init acts = some s → (∀ a ∈ acts, a.Healthy) →
      s.FlushWritesOldest := by
  intro h
  have hsome : (runFrom LogWorld.step .init stuckActs).map (fun s =>
      decide (s.worker = .wait ∧ (s.logger.bufOffset ⟨1, by decide⟩).val = 1 ∧
        (esqLoggerFlushOneBuffer .sample s.logger).written = s.logger.written)) = some true := by
    decide +kernel
  obtain ⟨s, hrun, hall⟩ := Option.map_eq_some_iff.mp hsome
  obtain ⟨hwait, hone, hsame⟩ := of_decide_eq_true hall
  have hwrites := h stuckActs s hrun
    (by simp [stuckActs, workTimes, LogAct.Healthy, LoggerIo.healthy_sample])
    .sample LoggerIo.healthy_sample ⟨⟨1, by decide⟩, by omega⟩
  rw [hwait] at hwrites
  obtain ⟨i, -, hwritten⟩ := hwrites
  have hlen := congrArg List.length (hsame.symm.trans hwritten)
  simp at hlen

end Esq
