import Mathlib.Data.Fintype.Card
import Esq.Logger.Invariant

/-!
# 書き戻し

`esq_logger_flush_one_buffer` の一歩ごとに、並びと、まだ書き戻していない byte がどう変わるか。

選ぶのは区間の先頭で、書いている間は誰も触らない。書き終えて空けると、区間は先頭から縮む。
書いてから空けるまでの間、先頭の中身はすでに file にある。
-/

namespace Esq

open Infra

/-- 書き戻しの途中で、worker の取っている buffer。 -/
def FlushPc.Ok (l : EsqLogger) (older : List LogBufIdx) : FlushPc → Prop
  | .enter => True
  | .pick => True
  | .write offset => l.workerIdx = l.head older ∧ l.bufState (l.head older) = .full ∧
      offset = (l.bufOffset (l.head older)).val
  | .retire => l.workerIdx = l.head older ∧ l.bufState (l.head older) = .full
  | .ioError => False
  | .dropAll => False

def EsqLogger.unwritten (l : EsqLogger) (older : List LogBufIdx) : Option FlushPc → List UInt8
  | some .retire => (l.window older).tail.flatMap l.content
  | _ => (l.window older).flatMap l.content

def EsqLogger.count (l : EsqLogger) : Nat :=
  (Finset.univ.filter fun i => 0 < (l.bufOffset i).val).card

/-- どの I/O も落ちず、`write` は頼まれただけ書く。 -/
def LoggerIo.Healthy (io : LoggerIo) : Prop := io.fd ≠ -1 ∧ ∀ n, io.write n = n

/-- 書き戻すものが無いとき、使いかけの buffer も無い。 -/
def EsqLogger.Quiescent (l : EsqLogger) : Prop :=
  (∀ i, (l.bufOffset i).val = 0) → ∀ i, l.bufState i = .empty

section

variable {l l' : EsqLogger} {older : List LogBufIdx} {i : LogBufIdx} {io : LoggerIo}
  {pc : FlushPc}

theorem EsqLogger.window_eq (l : EsqLogger) (older : List LogBufIdx) :
    l.window older = l.head older :: (l.window older).tail := by
  cases older with
  | nil => rfl
  | cons a older => rfl

theorem EsqLogger.flatMap_window (l : EsqLogger) (older : List LogBufIdx) :
    (l.window older).flatMap l.content =
      l.content (l.head older) ++ (l.window older).tail.flatMap l.content := by
  conv_lhs => rw [l.window_eq older]
  rw [List.flatMap_cons]

theorem EsqLogger.count_le (l : EsqLogger) : l.count ≤ logBufCnt :=
  (Finset.card_le_univ _).trans_eq (Fintype.card_fin _)

theorem EsqLogger.count_congr (h : ∀ i, (l'.bufOffset i).val = (l.bufOffset i).val) :
    l'.count = l.count := by
  unfold EsqLogger.count
  simp only [h]

theorem EsqLogger.unwritten_of_count (h : l.count = 0) (older : List LogBufIdx)
    (pc : Option FlushPc) : l.unwritten older pc = [] := by
  have hnil : ∀ i, l.content i = [] := by
    intro i
    have hi : i ∉ Finset.univ.filter fun i => 0 < (l.bufOffset i).val := by
      rw [Finset.card_eq_zero.mp h]
      exact Finset.notMem_empty i
    unfold EsqLogger.content
    rw [show (l.bufOffset i).val = 0 by simpa using hi, List.take_zero]
  unfold EsqLogger.unwritten
  split <;> simp [hnil]

/-! ## 選ぶ -/

theorem LoggerInv.head_pos (h : LoggerInv l older) (hq : l.Quiescent)
    (hne : l.bufState (l.head older) ≠ .empty) : 0 < (l.bufOffset (l.head older)).val := by
  by_contra hzero
  refine hne (hq (fun i => ?_) _)
  by_cases hi : i = l.head older
  · rw [hi]
    omega
  · -- 先頭は呼び手の buffer であり、ほかは空いている
    have hhead : l.head older = l.userIdx := by
      by_contra hu
      rcases h.full_or_empty hu with hf | he
      · exact hzero (h.full_pos _ hf)
      · exact hne he
    rw [hhead] at hi hzero
    rcases h.full_or_empty hi with hf | he
    · exfalso
      have hm : i ∈ older := by
        by_contra hm
        have := h.outside i (by unfold EsqLogger.window; simp [hm, hi])
        rw [hf] at this
        exact nomatch this
      obtain ⟨a, t, rfl⟩ : ∃ a t, older = a :: t :=
        List.exists_cons_of_ne_nil (List.ne_nil_of_mem hm)
      exact h.user_notMem (hhead ▸ List.mem_cons_self)
    · exact h.empty_zero i he

theorem LoggerInv.grab (h : LoggerInv l older) (hpos : 0 < (l.bufOffset (l.head older)).val) :
    LoggerInv (l.grab (l.head older)) older := by
  have hfull := h.setFull (l.head_mem older) hpos
  exact ⟨hfull.ring, Or.inl rfl, hfull.full, hfull.full_pos, hfull.outside, hfull.empty_zero⟩

theorem LoggerInv.pick_empty (h : LoggerInv l older)
    (he : l.bufState (l.head older) = .empty) :
    esqLoggerPick l = ({ l with userSem := l.userSem + 1 }, none) := by
  unfold esqLoggerPick
  rw [h.scan_eq_none he]

theorem LoggerInv.pick_head (h : LoggerInv l older)
    (hpos : 0 < (l.bufOffset (l.head older)).val) :
    esqLoggerPick l =
      (l.grab (l.head older), some (.write (l.bufOffset (l.head older)).val)) := by
  have hne : l.bufState (l.head older) ≠ .empty := fun he => by
    have := h.empty_zero _ he
    omega
  unfold esqLoggerPick
  rw [h.scan_eq_head hne]
  exact if_neg (Nat.ne_of_gt hpos)

/-! ## 書く -/

theorem flushToDisk_healthy (hio : io.Healthy) (l : EsqLogger) (i : LogBufIdx) (n : Nat) :
    ∃ fd filenameIdx, esqLoggerFlushToDisk io l i n =
      ({ l with
          fd := fd
          filenameIdx := filenameIdx
          written := l.written ++ [(l.buf i).bytes.take n] }, 0) := by
  have hlen : (io.write n).toNat = n := by
    rw [hio.2 n]
    exact Int.toNat_natCast n
  unfold esqLoggerFlushToDisk
  dsimp only
  by_cases hfd : l.fd = -1
  · rw [if_pos hfd]
    dsimp only
    rw [if_neg hio.1, hlen, List.take_take, Nat.min_self, if_pos (hio.2 n)]
    exact ⟨_, _, rfl⟩
  · rw [if_neg hfd, if_neg hfd, hlen, List.take_take, Nat.min_self, if_pos (hio.2 n)]
    exact ⟨l.fd, l.filenameIdx, rfl⟩

/-! ## 空ける -/

theorem LoggerInv.retire (h : LoggerInv l older) (hw : l.workerIdx = l.head older) :
    LoggerInv l.retire older.tail ∧
      (l.retire.window older.tail).flatMap l.retire.content =
        (l.window older).tail.flatMap l.content := by
  have hstate : ∀ j, j ≠ l.head older → l.retire.bufState j = l.bufState j := fun j hj =>
    Function.update_of_ne (hw ▸ hj) _ _
  have hoffset : ∀ j, j ≠ l.head older → l.retire.bufOffset j = l.bufOffset j := fun j hj =>
    Function.update_of_ne (hw ▸ hj) _ _
  have hempty : l.retire.bufState (l.head older) = .empty := hw ▸ l.retire_self
  have hzero : (l.retire.bufOffset (l.head older)).val = 0 := by
    show (Function.update l.bufOffset l.workerIdx _ (l.head older)).val = 0
    rw [hw, Function.update_self]
  have hcontent : ∀ j, j ≠ l.head older → l.retire.content j = l.content j := by
    intro j hj
    unfold EsqLogger.content
    rw [hoffset j hj]
    rfl
  have hnil : l.retire.content (l.head older) = [] := by
    unfold EsqLogger.content
    rw [hzero, List.take_zero]
  have hpos : ∀ j, l.retire.bufState j = .full → 0 < (l.retire.bufOffset j).val := by
    intro j hj
    by_cases hjh : j = l.head older
    · rw [hjh, hempty] at hj
      exact nomatch hj
    · rw [hstate j hjh] at hj
      rw [hoffset j hjh]
      exact h.full_pos j hj
  have hfree : ∀ j, l.retire.bufState j = .empty → (l.retire.bufOffset j).val = 0 := by
    intro j hj
    by_cases hjh : j = l.head older
    · rw [hjh]
      exact hzero
    · rw [hstate j hjh] at hj
      rw [hoffset j hjh]
      exact h.empty_zero j hj
  cases older with
  | nil =>
    refine ⟨⟨h.ring, Or.inl hw, fun j hj => (nomatch hj), hpos, ?_, hfree⟩, ?_⟩
    · intro j hj
      rw [hstate j fun he => hj (List.mem_singleton.mpr he)]
      exact h.outside j hj
    · show [l.userIdx].flatMap l.retire.content = [].flatMap l.content
      rw [List.flatMap_singleton]
      exact hnil
  | cons a older =>
    have hring : RingWindow esqLoggerBufNextIdx (a :: (older ++ [l.userIdx])) := h.ring
    have hnotMem : a ∉ older ++ [l.userIdx] := (List.nodup_cons.mp hring.nodup).1
    have hne : ∀ j ∈ older ++ [l.userIdx], j ≠ a := fun j hj he => hnotMem (he ▸ hj)
    refine ⟨⟨hring.pop, Or.inr ?_, ?_, hpos, ?_, hfree⟩, ?_⟩
    · show esqLoggerBufNextIdx l.workerIdx = l.head older
      rw [hw]
      have hsecond : a :: (older ++ [l.userIdx]) =
          a :: l.head older :: (l.window older).tail := congrArg _ (l.window_eq older)
      rw [hsecond] at hring
      exact hring.second.symm
    · intro j hj
      rw [hstate j (hne j (List.mem_append_left _ hj))]
      exact h.full j (List.mem_cons_of_mem a hj)
    · intro j hj
      by_cases hja : j = a
      · rw [hja]
        exact hempty
      · rw [hstate j hja]
        refine h.outside j fun hm => ?_
        rcases List.mem_cons.mp hm with hm | hm
        · exact hja hm
        · exact hj hm
    · exact List.flatMap_congr fun j hj => hcontent j (hne j hj)

theorem EsqLogger.count_retire (hpos : 0 < (l.bufOffset l.workerIdx).val) :
    l.retire.count + 1 = l.count := by
  have herase : (Finset.univ.filter fun i => 0 < (l.retire.bufOffset i).val) =
      (Finset.univ.filter fun i => 0 < (l.bufOffset i).val).erase l.workerIdx := by
    ext i
    simp only [Finset.mem_filter, Finset.mem_univ, true_and, Finset.mem_erase]
    by_cases hi : i = l.workerIdx
    · subst hi
      show 0 < (Function.update l.bufOffset l.workerIdx _ l.workerIdx).val ↔ _
      rw [Function.update_self]
      simp
    · show 0 < (Function.update l.bufOffset l.workerIdx _ i).val ↔ _
      rw [Function.update_of_ne hi]
      simp [hi]
  unfold EsqLogger.count
  rw [herase]
  exact Finset.card_erase_add_one (by simpa using hpos)

/-! ## 一歩 -/

/-- 書き戻しの一歩の前後。`r` は次の場所で、`none` は返ることである。 -/
structure Flushed (l l' : EsqLogger) (older older' : List LogBufIdx) (pc : FlushPc)
    (r : Option FlushPc) : Prop where
  inv : LoggerInv l' older'
  ok : ∀ pc', r = some pc' → pc'.Ok l' older'
  delivered : l'.written.flatten ++ l'.unwritten older' r =
    l.written.flatten ++ l.unwritten older (some pc)
  lastIoErrorTime : l'.lastIoErrorTime = l.lastIoErrorTime
  stopFlag : l'.stopFlag = l.stopFlag
  /-- 区間は縮むだけである -/
  window : (l'.window older').Sublist (l.window older)
  offset : ∀ i, 0 < (l'.bufOffset i).val → 0 < (l.bufOffset i).val
  /-- 空でない buffer は増えない -/
  count : l'.count ≤ l.count
  /-- 返るまでに、ひとつ減るか、もともと無い -/
  count_ret : r = none → l'.count + 1 = l.count ∨ l'.count = 0

theorem LoggerInv.flush (h : LoggerInv l older) (hio : io.Healthy)
    (hclean : l.lastIoErrorTime = 0) (hok : pc.Ok l older) (hq : pc = .pick → l.Quiescent) :
    ∃ older', Flushed l (esqLoggerFlushStep io l pc).1 older older' pc
      (esqLoggerFlushStep io l pc).2 := by
  cases pc with
  | enter =>
    have hstep : esqLoggerFlushStep io l .enter = (l, some .pick) :=
      if_neg fun hlate => hlate.1 hclean
    rw [hstep]
    refine ⟨older, h, ?_, rfl, rfl, rfl, .refl _, fun _ => id, le_rfl, fun hr => nomatch hr⟩
    rintro pc' ⟨⟩
    trivial
  | pick =>
    by_cases he : l.bufState (l.head older) = .empty
    · rw [show esqLoggerFlushStep io l .pick = _ from h.pick_empty he]
      refine ⟨older, h.congr rfl rfl rfl rfl, fun _ hr => (nomatch hr), rfl, rfl, rfl, .refl _,
        fun _ => id, le_rfl, fun _ => Or.inr ?_⟩
      have hzero : ∀ i, (l.bufOffset i).val = 0 := fun i => h.empty_zero i (h.all_empty he i)
      unfold EsqLogger.count
      simp [hzero]
    · have hpos := h.head_pos (hq rfl) he
      rw [show esqLoggerFlushStep io l .pick = _ from h.pick_head hpos]
      refine ⟨older, h.grab hpos, ?_, rfl, rfl, rfl, .refl _, fun _ => id, le_rfl,
        fun hr => nomatch hr⟩
      rintro pc' ⟨⟩
      exact ⟨rfl, l.grab_self _, rfl⟩
  | write offset =>
    obtain ⟨hw, hfull, rfl⟩ := hok
    obtain ⟨fd, filenameIdx, hdisk⟩ :=
      flushToDisk_healthy hio l l.workerIdx (l.bufOffset (l.head older)).val
    have hstep : esqLoggerFlushStep io l (.write (l.bufOffset (l.head older)).val) =
        ({ l with
            fd := fd
            filenameIdx := filenameIdx
            written := l.written ++ [l.content (l.head older)] }, some .retire) := by
      unfold esqLoggerFlushStep
      dsimp only
      rw [hdisk, if_neg (by simp), hw]
      rfl
    rw [hstep]
    refine ⟨older, h.congr rfl rfl rfl rfl, ?_, ?_, rfl, rfl, .refl _, fun _ => id, le_rfl,
      fun hr => nomatch hr⟩
    · rintro pc' ⟨⟩
      exact ⟨hw, hfull⟩
    · -- 書いた分だけ、file が伸び、残りが減る
      show (l.written ++ [l.content (l.head older)]).flatten ++
        (l.window older).tail.flatMap l.content =
          l.written.flatten ++ (l.window older).flatMap l.content
      rw [l.flatMap_window older]
      simp
  | retire =>
    obtain ⟨hw, hfull⟩ := hok
    obtain ⟨hinv, hrest⟩ := h.retire hw
    have hcount := EsqLogger.count_retire (hw ▸ h.full_pos _ hfull)
    refine ⟨older.tail, hinv, fun _ hr => (nomatch hr), congrArg _ hrest, rfl, rfl, ?_, ?_, ?_,
      fun _ => Or.inl hcount⟩
    · exact (List.tail_sublist older).append_right _
    · intro i hi
      by_contra hzero
      refine hzero ?_
      by_cases hiw : i = l.workerIdx
      · rw [hiw, hw]
        exact h.full_pos _ hfull
      · rw [← show l.retire.bufOffset i = l.bufOffset i from Function.update_of_ne hiw _ _]
        exact hi
    · show l.retire.count ≤ l.count
      omega
  | ioError => exact hok.elim
  | dropAll => exact hok.elim

end

end Esq
