import Esq.Logger.Basic

/-!
# buffer の並び

書き戻していない byte は、輪の上の一つの区間に、古い順に並ぶ。区間の末尾は、呼び手の使う buffer である。
末尾より前の buffer は、どれも埋まっていて空でない。区間の外の buffer は空いている。

worker の番号は区間の先頭か、その一つ手前にある。だから書き戻しの探し方は、いつも先頭を見つける。
-/

namespace Esq

open Infra

/-- 呼び手の使う buffer より前の並びと合わせた区間。 -/
def EsqLogger.window (l : EsqLogger) (older : List LogBufIdx) : List LogBufIdx :=
  older ++ [l.userIdx]

def EsqLogger.head (l : EsqLogger) (older : List LogBufIdx) : LogBufIdx :=
  older.headD l.userIdx

/-- buffer の並び。`older` は、呼び手の使う buffer より前にあるものである。 -/
structure LoggerInv (l : EsqLogger) (older : List LogBufIdx) : Prop where
  ring : RingWindow esqLoggerBufNextIdx (l.window older)
  /-- worker は先頭か、その一つ手前にいる -/
  worker : l.workerIdx = l.head older ∨ esqLoggerBufNextIdx l.workerIdx = l.head older
  /-- 前の buffer は埋まっている -/
  full : ∀ i ∈ older, l.bufState i = .full
  /-- 埋まっていれば空でない -/
  full_pos : ∀ i, l.bufState i = .full → 0 < (l.bufOffset i).val
  /-- 区間の外は空いている -/
  outside : ∀ i, i ∉ l.window older → l.bufState i = .empty
  /-- 空いていれば空である -/
  empty_zero : ∀ i, l.bufState i = .empty → (l.bufOffset i).val = 0

theorem loggerInv_init : LoggerInv .init [] where
  ring := RingWindow.singleton _ _
  worker := Or.inl rfl
  full := fun _ h => nomatch h
  full_pos := fun _ h => nomatch h
  outside := fun _ _ => rfl
  empty_zero := fun _ _ => rfl

section

variable {l l' : EsqLogger} {older : List LogBufIdx} {i : LogBufIdx}

@[simp] theorem EsqLogger.setFull_self (l : EsqLogger) (i : LogBufIdx) :
    (l.setFull i).bufState i = .full :=
  Function.update_self _ _ _

@[simp] theorem EsqLogger.grab_self (l : EsqLogger) (i : LogBufIdx) :
    (l.grab i).bufState i = .full :=
  Function.update_self _ _ _

@[simp] theorem EsqLogger.retire_self (l : EsqLogger) :
    l.retire.bufState l.workerIdx = .empty :=
  Function.update_self _ _ _

theorem LoggerInv.congr (h : LoggerInv l older) (hu : l'.userIdx = l.userIdx)
    (hw : l'.workerIdx = l.workerIdx) (hs : l'.bufState = l.bufState)
    (ho : l'.bufOffset = l.bufOffset) : LoggerInv l' older := by
  have hwin : l'.window older = l.window older := by unfold EsqLogger.window; rw [hu]
  have hhead : l'.head older = l.head older := by unfold EsqLogger.head; rw [hu]
  refine ⟨?_, ?_, ?_, ?_, ?_, ?_⟩
  · rw [hwin]
    exact h.ring
  · rw [hw, hhead]
    exact h.worker
  · rw [hs]
    exact h.full
  · rw [hs, ho]
    exact h.full_pos
  · rw [hs, hwin]
    exact h.outside
  · rw [hs, ho]
    exact h.empty_zero

theorem EsqLogger.user_mem (l : EsqLogger) (older : List LogBufIdx) :
    l.userIdx ∈ l.window older :=
  List.mem_append_right _ (List.mem_singleton_self _)

theorem EsqLogger.head_mem (l : EsqLogger) (older : List LogBufIdx) :
    l.head older ∈ l.window older := by
  cases older with
  | nil => exact List.mem_singleton_self _
  | cons a older => exact List.mem_cons_self

theorem LoggerInv.head_empty (h : LoggerInv l older) (he : l.bufState (l.head older) = .empty) :
    older = [] := by
  cases older with
  | nil => rfl
  | cons a older =>
    have := h.full a List.mem_cons_self
    rw [show l.head (a :: older) = a from rfl, this] at he
    exact nomatch he

theorem LoggerInv.all_empty (h : LoggerInv l older) (he : l.bufState (l.head older) = .empty) :
    ∀ i, l.bufState i = .empty := by
  intro i
  by_cases hi : i ∈ l.window older
  · obtain rfl := h.head_empty he
    rw [show i = l.userIdx by simpa [EsqLogger.window] using hi]
    exact he
  · exact h.outside i hi

theorem LoggerInv.full_or_empty (h : LoggerInv l older) (hi : i ≠ l.userIdx) :
    l.bufState i = .full ∨ l.bufState i = .empty := by
  by_cases hm : i ∈ older
  · exact Or.inl (h.full i hm)
  · refine Or.inr (h.outside i ?_)
    unfold EsqLogger.window
    simp [hm, hi]

theorem LoggerInv.user_notMem (h : LoggerInv l older) : l.userIdx ∉ older := by
  intro hm
  exact (List.nodup_append.mp h.ring.nodup).2.2 _ hm _ (List.mem_singleton_self _) rfl

theorem LoggerInv.setFull (h : LoggerInv l older) (hi : i ∈ l.window older)
    (hpos : 0 < (l.bufOffset i).val) : LoggerInv (l.setFull i) older := by
  have hother : ∀ j, j ≠ i → (l.setFull i).bufState j = l.bufState j := fun j hj =>
    Function.update_of_ne hj _ _
  refine ⟨h.ring, h.worker, ?_, ?_, ?_, ?_⟩
  · intro j hj
    by_cases hji : j = i
    · rw [hji, l.setFull_self]
    · rw [hother j hji]
      exact h.full j hj
  · intro j hj
    by_cases hji : j = i
    · rw [hji]
      exact hpos
    · rw [hother j hji] at hj
      exact h.full_pos j hj
  · intro j hj
    rw [hother j fun he => hj (he ▸ hi)]
    exact h.outside j hj
  · intro j hj
    by_cases hji : j = i
    · rw [hji, l.setFull_self] at hj
      exact nomatch hj
    · rw [hother j hji] at hj
      exact h.empty_zero j hj

/-! ## 輪 -/

theorem esqLoggerBufNextIdx_ne (i : LogBufIdx) : esqLoggerBufNextIdx i ≠ i := by
  revert i
  decide

theorem esqLoggerBufNextIdx_cycle (i : LogBufIdx) :
    let j := esqLoggerBufNextIdx i
    let k := esqLoggerBufNextIdx j
    let m := esqLoggerBufNextIdx k
    j ≠ i ∧ k ≠ i ∧ m ≠ i ∧ esqLoggerBufNextIdx m = i := by
  revert i
  decide

/-! ## 探し方 -/

theorem LoggerInv.scan_eq_head (h : LoggerInv l older)
    (hne : l.bufState (l.head older) ≠ .empty) : l.scan = some (l.head older) := by
  unfold EsqLogger.scan EsqLogger.scanStart
  obtain ⟨p, hp⟩ : ∃ p : LogBufIdx → Bool, p = fun i => l.bufState i != .empty := ⟨_, rfl⟩
  have hfound : p (l.head older) = true := by simpa [hp] using hne
  have hskip : ∀ j, l.bufState j = .empty → p j = false := by
    intro j hj
    simp [hp, hj]
  rw [← hp]
  by_cases hwu : l.workerIdx = l.userIdx
  · -- 呼び手と同じ buffer にいれば、その隣から探す
    rw [if_pos hwu]
    cases older with
    | nil =>
      -- 一周して、呼び手の buffer に戻る
      obtain ⟨h1, h2, h3, h4⟩ := esqLoggerBufNextIdx_cycle l.workerIdx
      have hother : ∀ j, j ≠ l.workerIdx → p j = false := by
        intro j hj
        exact hskip j (h.outside j (by simpa [EsqLogger.window, ← hwu] using hj))
      have hhead : l.head [] = l.workerIdx := hwu.symm
      rw [hhead] at hfound ⊢
      rw [show logBufCnt = 0 + 1 + 1 + 1 + 1 from rfl, scanFrom_skip (hother _ h1),
        scanFrom_skip (hother _ h2), scanFrom_skip (hother _ h3), h4, scanFrom_found hfound]
    | cons a older =>
      -- 呼び手は先頭ではないので、worker は先頭の一つ手前にいる
      have hne : l.workerIdx ≠ l.head (a :: older) := by
        intro he
        refine h.user_notMem ?_
        rw [← hwu, he]
        exact List.mem_cons_self
      rw [h.worker.resolve_left hne]
      exact scanFrom_found hfound
  · rw [if_neg hwu]
    rcases h.worker with hw | hw
    · rw [hw]
      exact scanFrom_found hfound
    · -- 先頭の一つ手前は、区間の外にある
      have hout : l.bufState l.workerIdx = .empty := by
        refine (h.full_or_empty hwu).resolve_left fun hfull => ?_
        have hm : l.workerIdx ∈ (l.window older).dropLast := by
          unfold EsqLogger.window
          rw [List.dropLast_concat]
          by_contra hm
          have := h.outside l.workerIdx (by unfold EsqLogger.window; simp [hm, hwu])
          rw [this] at hfull
          exact nomatch hfull
        obtain ⟨a, w, haw⟩ : ∃ a w, l.window older = a :: w :=
          List.exists_cons_of_ne_nil (by simp [EsqLogger.window])
        have hhead : l.head older = a := by
          cases older with
          | nil => exact (List.cons.inj haw).1
          | cons b older => exact (List.cons.inj haw).1
        have hring := h.ring
        rw [haw] at hm hring
        exact hring.next_ne_head hm (hw.trans hhead)
      rw [show logBufCnt = 2 + 1 + 1 from rfl, scanFrom_skip (hskip _ hout), hw]
      exact scanFrom_found hfound

theorem LoggerInv.scan_eq_none (h : LoggerInv l older)
    (he : l.bufState (l.head older) = .empty) : l.scan = none := by
  unfold EsqLogger.scan
  exact scanFrom_eq_none fun i => by simp [h.all_empty he i]

end

end Esq
