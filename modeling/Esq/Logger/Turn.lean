import Esq.Logger.Invariant

/-!
# 呼び手の一回

`esq_log` が lock を取って放すまでに、並びと中身がどう変わるか。

buffer を決める所と、そこへ書く所の二段である。どちらも、埋まっている buffer には触らない。
受け取られた文字列は、並べた中身の末尾に一度だけ付く。
-/

namespace Esq

open Infra

/-! ## 書式を当てる -/

theorem LogBuf.take_vsnprintf (b : LogBuf) (offset : Fin logBufSize) (text : LogText) :
    (b.vsnprintf offset text).1.bytes.take offset = b.bytes.take offset := by
  cases text with
  | none => rfl
  | some text =>
    have hlen : (b.bytes.take offset).length = offset := by
      rw [List.length_take, b.length_bytes]
      exact Nat.min_eq_left offset.isLt.le
    show (splice b.bytes offset _).take offset = _
    unfold splice
    rw [List.append_assoc, List.take_append_of_le_length hlen.ge, List.take_of_length_le hlen.le]

theorem LogBuf.take_vsnprintf_add (b : LogBuf) (offset : Fin logBufSize) {text : List UInt8}
    (h : text.length < logBufSize - offset) :
    (b.vsnprintf offset (some text)).1.bytes.take (offset + text.length) =
      b.bytes.take offset ++ text := by
  have hlen : (b.bytes.take offset).length = offset := by
    rw [List.length_take, b.length_bytes]
    exact Nat.min_eq_left offset.isLt.le
  show (splice b.bytes offset _).take (offset + text.length) = _
  unfold splice
  have hput : text.take (logBufSize - offset - 1) = text := List.take_of_length_le (by omega)
  have hadd : (b.bytes.take offset ++ text).length = offset + text.length := by
    rw [List.length_append, hlen]
  rw [hput, ← List.append_assoc, List.append_assoc, ← hadd, List.take_left]

/-! ## 並びの伸び方 -/

/-- 呼び手が `l` を `l'` に変え、中身の末尾に `new` が付いた。 -/
structure Grown (l l' : EsqLogger) (older older' : List LogBufIdx) (new : List UInt8) :
    Prop where
  inv : LoggerInv l' older'
  head : l'.head older' = l.head older
  /-- 区間は、空いた buffer ひとつ分だけ伸びうる -/
  window : l'.window older' = l.window older ∨
    l'.window older' = l.window older ++ [l'.userIdx]
  pending : (l'.window older').flatMap l'.content = (l.window older).flatMap l.content ++ new
  offset : ∀ i, (l'.bufOffset i).val =
    (l.bufOffset i).val + if i = l'.userIdx then new.length else 0
  /-- 埋まっている buffer には触らない -/
  kept : ∀ i, l.bufState i = .full →
    l'.bufState i = .full ∧ l'.bufOffset i = l.bufOffset i ∧ l'.content i = l.content i
  workerIdx : l'.workerIdx = l.workerIdx
  written : l'.written = l.written
  lastIoErrorTime : l'.lastIoErrorTime = l.lastIoErrorTime
  stopFlag : l'.stopFlag = l.stopFlag

section

variable {l l₁ l₂ : EsqLogger} {older older₁ : List LogBufIdx} {new : List UInt8}
  {text : LogText} {i : LogBufIdx}

theorem Grown.refl (h : LoggerInv l older) : Grown l l older older [] where
  inv := h
  head := rfl
  window := Or.inl rfl
  pending := (List.append_nil _).symm
  offset := by simp
  kept := fun _ hi => ⟨hi, rfl, rfl⟩
  workerIdx := rfl
  written := rfl
  lastIoErrorTime := rfl
  stopFlag := rfl

theorem Grown.trans (h : Grown l l₁ older older₁ []) (h' : Grown l₁ l₂ older₁ older₁ new)
    (hu : l₂.userIdx = l₁.userIdx) : Grown l l₂ older older₁ new where
  inv := h'.inv
  head := h'.head.trans h.head
  window := by
    have hwin : l₂.window older₁ = l₁.window older₁ := by unfold EsqLogger.window; rw [hu]
    rw [hwin, hu]
    exact h.window
  pending := by rw [h'.pending, h.pending, List.append_nil]
  offset := by
    intro i
    rw [h'.offset i, h.offset i]
    simp
  kept := by
    intro i hi
    obtain ⟨hs, ho, hc⟩ := h.kept i hi
    obtain ⟨hs', ho', hc'⟩ := h'.kept i hs
    exact ⟨hs', ho'.trans ho, hc'.trans hc⟩
  workerIdx := h'.workerIdx.trans h.workerIdx
  written := h'.written.trans h.written
  lastIoErrorTime := h'.lastIoErrorTime.trans h.lastIoErrorTime
  stopFlag := h'.stopFlag.trans h.stopFlag

/-! ## buffer を決める -/

theorem LoggerInv.claim (h : LoggerInv l older) (hu : l.bufState l.userIdx ≠ .full) :
    Grown l l.claim older older [] := by
  have hother : ∀ j, j ≠ l.userIdx → l.claim.bufState j = l.bufState j := fun j hj =>
    Function.update_of_ne hj _ _
  have huser : l.claim.bufState l.userIdx = .use := Function.update_self _ _ _
  refine ⟨⟨h.ring, h.worker, ?_, ?_, ?_, ?_⟩, rfl, Or.inl rfl, (List.append_nil _).symm,
    fun j => ?_, ?_, rfl, rfl, rfl, rfl⟩
  · intro j hj
    rw [hother j fun he => h.user_notMem (he ▸ hj)]
    exact h.full j hj
  · intro j hj
    by_cases hju : j = l.userIdx
    · rw [hju, huser] at hj
      exact by cases hj
    · rw [hother j hju] at hj
      exact h.full_pos j hj
  · intro j hj
    rw [hother j fun he => hj (by simp [EsqLogger.window, EsqLogger.claim, he])]
    exact h.outside j hj
  · intro j hj
    by_cases hju : j = l.userIdx
    · rw [hju, huser] at hj
      exact by cases hj
    · rw [hother j hju] at hj
      exact h.empty_zero j hj
  · rw [List.length_nil, ite_self]
    rfl
  · intro j hj
    refine ⟨?_, rfl, rfl⟩
    rw [hother j fun he => hu (he ▸ hj)]
    exact hj

theorem LoggerInv.advance (h : LoggerInv l older) (hu : l.bufState l.userIdx = .full)
    (hn : l.bufState (esqLoggerBufNextIdx l.userIdx) = .empty) :
    Grown l l.advance older (older ++ [l.userIdx]) [] := by
  have hzero := h.empty_zero _ hn
  have hoffset : l.advance.bufOffset = l.bufOffset := by
    funext j
    by_cases hj : j = esqLoggerBufNextIdx l.userIdx
    · rw [hj]
      exact (Function.update_self _ _ _).trans (Fin.ext hzero.symm)
    · exact Function.update_of_ne hj _ _
  have hcontent : l.advance.content = l.content := by
    funext j
    unfold EsqLogger.content
    rw [hoffset]
    rfl
  have hother : ∀ j, l.bufState j = .full → l.advance.bufState j = .full := by
    intro j hj
    rw [← hj]
    refine Function.update_of_ne ?_ _ _
    rintro rfl
    rw [hn] at hj
    exact nomatch hj
  have hnext : l.advance.bufState l.advance.userIdx = .use := Function.update_self _ _ _
  have hwindow : l.advance.window (older ++ [l.userIdx]) =
      l.window older ++ [l.advance.userIdx] := rfl
  have hnotMem : esqLoggerBufNextIdx l.userIdx ∉ l.window older := by
    intro hm
    unfold EsqLogger.window at hm
    rcases List.mem_append.mp hm with hm | hm
    · rw [h.full _ hm] at hn
      exact nomatch hn
    · exact esqLoggerBufNextIdx_ne _ (List.mem_singleton.mp hm)
  have hhead : l.advance.head (older ++ [l.userIdx]) = l.head older := by
    cases older with
    | nil => rfl
    | cons a older => rfl
  refine ⟨⟨h.ring.push hnotMem, ?_, ?_, ?_, ?_, ?_⟩, hhead, Or.inr hwindow, ?_, ?_, ?_, rfl,
    rfl, rfl, rfl⟩
  · rw [hhead]
    exact h.worker
  · intro j hj
    rcases List.mem_append.mp hj with hj | hj
    · exact hother j (h.full j hj)
    · rw [List.mem_singleton.mp hj]
      exact hother _ hu
  · intro j hj
    rw [hoffset]
    by_cases hjn : j = l.advance.userIdx
    · rw [hjn, hnext] at hj
      exact nomatch hj
    · rw [show l.advance.bufState j = l.bufState j from Function.update_of_ne hjn _ _] at hj
      exact h.full_pos j hj
  · intro j hj
    rw [hwindow, List.mem_append, not_or, List.mem_singleton] at hj
    rw [show l.advance.bufState j = l.bufState j from Function.update_of_ne hj.2 _ _]
    exact h.outside j hj.1
  · intro j hj
    rw [hoffset]
    by_cases hjn : j = l.advance.userIdx
    · rw [hjn, hnext] at hj
      exact nomatch hj
    · rw [show l.advance.bufState j = l.bufState j from Function.update_of_ne hjn _ _] at hj
      exact h.empty_zero j hj
  · -- 新しい buffer は空である
    have hnil : l.content l.advance.userIdx = [] := by
      show (l.buf _).bytes.take (l.bufOffset (esqLoggerBufNextIdx l.userIdx)) = []
      rw [hzero, List.take_zero]
    rw [hwindow, hcontent, List.flatMap_append]
    simp [hnil]
  · intro j
    rw [hoffset]
    simp
  · intro j hj
    exact ⟨hother j hj, by rw [hoffset], by rw [hcontent]⟩

/-! ## 書く -/

theorem EsqLogger.content_vsnprintf (l : EsqLogger) (text : LogText) (i : LogBufIdx) :
    (l.vsnprintf text).1.content i = l.content i := by
  show ((Function.update l.buf l.userIdx _ i : LogBuf).bytes.take (l.bufOffset i)) = _
  by_cases hi : i = l.userIdx
  · rw [hi, Function.update_self]
    exact LogBuf.take_vsnprintf _ _ _
  · rw [Function.update_of_ne hi]
    rfl

theorem LoggerInv.vsnprintf (h : LoggerInv l older) (text : LogText) :
    Grown l (l.vsnprintf text).1 older older [] := by
  refine ⟨h.congr rfl rfl rfl rfl, rfl, Or.inl rfl, ?_, fun j => ?_, ?_, rfl, rfl, rfl, rfl⟩
  · rw [List.append_nil]
    exact List.flatMap_congr fun j _ => l.content_vsnprintf text j
  · rw [List.length_nil, ite_self]
    rfl
  · intro j hj
    exact ⟨hj, rfl, l.content_vsnprintf text j⟩

theorem LoggerInv.setFull_user (h : LoggerInv l older) (hu : l.bufState l.userIdx = .use)
    (hpos : 0 < (l.bufOffset l.userIdx).val) :
    Grown l (l.setFull l.userIdx) older older [] := by
  refine ⟨h.setFull (l.user_mem older) hpos, rfl, Or.inl rfl, (List.append_nil _).symm,
    fun j => ?_, ?_, rfl, rfl, rfl, rfl⟩
  · rw [List.length_nil, ite_self]
    rfl
  · intro j hj
    refine ⟨?_, rfl, rfl⟩
    rw [← hj]
    refine Function.update_of_ne ?_ _ _
    rintro rfl
    rw [hu] at hj
    exact nomatch hj

theorem LoggerInv.accept (h : LoggerInv l older) (hu : l.bufState l.userIdx = .use)
    {text : List UInt8} (hfit : (l.bufOffset l.userIdx).val + text.length < logBufSize) :
    Grown l ((l.vsnprintf (some text)).1.accept text.length hfit) older older text := by
  obtain ⟨l', hl'⟩ : ∃ l', l' = (l.vsnprintf (some text)).1.accept text.length hfit := ⟨_, rfl⟩
  have hoffset : ∀ j, j ≠ l.userIdx → l'.bufOffset j = l.bufOffset j := by
    intro j hj
    rw [hl']
    exact Function.update_of_ne hj _ _
  have huser : (l'.bufOffset l.userIdx).val = (l.bufOffset l.userIdx).val + text.length := by
    rw [hl']
    show (Function.update l.bufOffset l.userIdx _ _).val = _
    rw [Function.update_self]
    rfl
  have hstate : l'.bufState = l.bufState := by rw [hl']; rfl
  have hbuf : l'.buf = (l.vsnprintf (some text)).1.buf := by rw [hl']; rfl
  have hcontent : ∀ j, j ≠ l.userIdx → l'.content j = l.content j := by
    intro j hj
    rw [← l.content_vsnprintf (some text) j]
    unfold EsqLogger.content
    rw [hoffset j hj, hbuf]
    rfl
  have hgrow : l'.content l.userIdx = l.content l.userIdx ++ text := by
    unfold EsqLogger.content
    rw [huser, hbuf]
    show (Function.update l.buf l.userIdx _ _ : LogBuf).bytes.take _ = _
    rw [Function.update_self]
    exact LogBuf.take_vsnprintf_add _ _ (by omega)
  have hne : ∀ j s, s ≠ .use → l.bufState j = s → j ≠ l.userIdx := by
    rintro j s hs hj rfl
    exact hs (hj.symm.trans hu)
  rw [← hl']
  have hidx : l'.userIdx = l.userIdx := by rw [hl']; rfl
  have hworker : l'.workerIdx = l.workerIdx := by rw [hl']; rfl
  have hwindow : l'.window older = l.window older := by unfold EsqLogger.window; rw [hidx]
  have hhead : l'.head older = l.head older := by unfold EsqLogger.head; rw [hidx]
  refine ⟨⟨hwindow ▸ h.ring, ?_, ?_, ?_, ?_, ?_⟩, hhead, Or.inl hwindow, ?_, ?_, ?_, hworker,
    by rw [hl']; rfl, by rw [hl']; rfl, by rw [hl']; rfl⟩
  · rw [hworker, hhead]
    exact h.worker
  · rw [hstate]
    exact h.full
  · intro j hj
    rw [hstate] at hj
    rw [hoffset j (hne j _ (by decide) hj)]
    exact h.full_pos j hj
  · rw [hstate, hwindow]
    exact h.outside
  · intro j hj
    rw [hstate] at hj
    rw [hoffset j (hne j _ (by decide) hj)]
    exact h.empty_zero j hj
  · -- 末尾の buffer の中身だけが伸びる
    have hupdate : l'.content =
        Function.update l.content l.userIdx (l.content l.userIdx ++ text) := by
      funext j
      by_cases hj : j = l.userIdx
      · rw [hj, Function.update_self, hgrow]
      · rw [Function.update_of_ne hj, hcontent j hj]
    rw [hwindow, hupdate]
    exact flatMap_update_last h.ring.nodup
  · intro j
    rw [hidx]
    by_cases hj : j = l.userIdx
    · rw [hj, if_pos rfl, huser]
    · rw [if_neg hj, hoffset j hj]
      rfl
  · intro j hj
    have hju := hne j _ (by decide) hj
    exact ⟨hstate ▸ hj, hoffset j hju, hcontent j hju⟩

theorem LoggerInv.format (h : LoggerInv l older) (hu : l.bufState l.userIdx = .use)
    (text : LogText) :
    ∃ new, Grown l (esqLogFormat l text).1 older older new ∧
      (esqLogFormat l text).1.userIdx = l.userIdx ∧
      (((esqLogFormat l text).2 = .ret esqOk ∧ text = some new ∧ 0 < new.length) ∨
        ((esqLogFormat l text).2 ≠ .ret esqOk ∧ new = [])) := by
  have hprint := h.vsnprintf text
  unfold esqLogFormat
  dsimp only
  split
  next => exact ⟨[], hprint, rfl, Or.inr ⟨by simp [esqErrorParam, esqOk], rfl⟩⟩
  next hpos =>
  split
  next hfull =>
    split
    next => exact ⟨[], hprint, rfl, Or.inr ⟨by simp [esqErrorSize, esqOk], rfl⟩⟩
    next hsize =>
      -- 入りきらないのは、すでに何か書かれているからである
      exact ⟨[], hprint.trans (hprint.inv.setFull_user hu (by omega)) rfl, rfl,
        Or.inr ⟨by simp, rfl⟩⟩
  next hfit =>
    cases text with
    | none => exact absurd (show (-1 : Int) ≤ 0 by decide) hpos
    | some text =>
      replace hpos : ¬ (text.length : Int) ≤ 0 := hpos
      replace hfit : ¬ (logBufSize : Int) - (l.bufOffset l.userIdx).val ≤ text.length := hfit
      exact ⟨text, h.accept hu (by omega), rfl, Or.inl ⟨rfl, rfl, by omega⟩⟩

/-! ## 一回 -/

theorem LoggerInv.turn (h : LoggerInv l older) (text : LogText) :
    ∃ older' new, Grown l (esqLogTurn l text).1 older older' new ∧
      (((esqLogTurn l text).2 = .ret esqOk ∧ text = some new ∧ 0 < new.length ∧
          l.stopFlag = false) ∨
        ((esqLogTurn l text).2 ≠ .ret esqOk ∧ new = [])) := by
  unfold esqLogTurn
  split
  next => exact ⟨older, [], .refl h, Or.inr ⟨by simp [esqErrorClose, esqOk], rfl⟩⟩
  next hstop =>
  have hrun : l.stopFlag = false := by simpa using hstop
  split
  next hfull =>
    split
    next hempty =>
      have hadv := h.advance hfull hempty
      obtain ⟨new, hgrown, huser, hret⟩ :=
        hadv.inv.format (Function.update_self _ _ _) text
      refine ⟨_, new, hadv.trans hgrown huser, ?_⟩
      rcases hret with ⟨hok, htext, hpos⟩ | hret
      · exact Or.inl ⟨hok, htext, hpos, hrun⟩
      · exact Or.inr hret
    next => exact ⟨older, [], (Grown.refl h).trans
        ⟨h.congr rfl rfl rfl rfl, rfl, Or.inl rfl, (List.append_nil _).symm, by simp,
          fun _ hi => ⟨hi, rfl, rfl⟩, rfl, rfl, rfl, rfl⟩ rfl, Or.inr ⟨by simp, rfl⟩⟩
  next hfull =>
    have hclaim := h.claim hfull
    obtain ⟨new, hgrown, huser, hret⟩ :=
      hclaim.inv.format (Function.update_self _ _ _) text
    refine ⟨_, new, hclaim.trans hgrown huser, ?_⟩
    rcases hret with ⟨hok, htext, hpos⟩ | hret
    · exact Or.inl ⟨hok, htext, hpos, hrun⟩
    · exact Or.inr hret

end

end Esq
