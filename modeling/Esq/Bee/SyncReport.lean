import Esq.Dashboard.Text
import Esq.RangeMap.Dump

/-!
# 同期の報告

`bee/bucket.c` の `bee_bucket_sync_session_write_dashboard`。一息ごとに、session の error、各 target の error、
処理した record の数を、dashboard の一つの item に一行ずつ書く。

最後の行はいつも書くので、error の行が一つでもあれば、報告の全体は読めない。
-/

namespace Esq

open Infra

/-- `vsnprintf` する文字列。`int` に収まらない長さなら失敗する。 -/
def Vsnprintf.of (s : List UInt8) : Vsnprintf :=
  if h : s.length < 2 ^ 31 then .text s h else .failed []

/-- 報告に使う `bucket_sync_session_t` の欄。`targetErrs` は `targets` の順に並ぶ。 -/
structure SyncReport where
  sessionErr : Option (List UInt8)
  targetErrs : List (Option (List UInt8))
  processed : Int

def syncSessionLine (err : List UInt8) : List UInt8 :=
  ascii "sync session reports: " ++ err ++ ascii "\n"

def syncTargetLine (err : List UInt8) : List UInt8 :=
  ascii "sync target reports: " ++ err ++ ascii "\n"

def syncProcessedLine (processed : Int) : List UInt8 :=
  ascii "sync session proceed items: " ++ decimalInt processed ++ ascii "\n"

def SyncReport.lines (rep : SyncReport) : List (List UInt8) :=
  rep.sessionErr.toList.map syncSessionLine ++
    (rep.targetErrs.filterMap fun err => err.map syncTargetLine) ++
    [syncProcessedLine rep.processed]

/-- 行を書いていく。戻り値が正でなければ、そこでやめる。 -/
def writeDashboardLines (dashboard : Int) : List (List UInt8) → EsqDashboard → Int → EsqDashboard
  | [], d, _ => d
  | line :: lines, d, offset =>
    let w := esqDashboardSnprintf d dashboard offset (.of line)
    if w.2 ≤ 0 then w.1 else writeDashboardLines dashboard lines w.1 (offset + w.2)

def beeBucketSyncSessionWriteDashboard (dashboard : Int) (rep : SyncReport) (d : EsqDashboard) :
    EsqDashboard :=
  writeDashboardLines dashboard rep.lines d 0

section

variable {d : EsqDashboard} {id : Int} {e : EsqDashboardItem} {texts lines : List (List UInt8)}
  {st : EsqDashboard × Int}

theorem Vsnprintf.of_eq {s : List UInt8} (h : s.length < 2 ^ 31) : Vsnprintf.of s = .text s h :=
  dif_pos h

theorem SyncReport.lines_ne_nil (rep : SyncReport) : ∀ line ∈ rep.lines, line ≠ [] := by
  have hcons : ∀ s t u : List UInt8, u ≠ [] → s ++ t ++ u ≠ [] := fun s t u hu he =>
    hu (List.append_eq_nil_iff.mp he).2
  have hend : ascii "\n" ≠ [] := by decide
  unfold lines
  simp only [List.mem_append, List.mem_map, List.mem_filterMap, Option.map_eq_some_iff,
    List.mem_singleton]
  rintro line ((⟨err, -, rfl⟩ | ⟨_, -, err, -, rfl⟩) | rfl) <;> exact hcons _ _ _ hend

/-- **空でない行を書いていくと、すべて後ろに書き足される。** -/
theorem Appended.writeLines : ∀ {lines texts : List (List UInt8)} {d : EsqDashboard} {offset : Int},
    Appended id e texts (d, offset) → (∀ line ∈ lines, line ≠ []) →
    (texts ++ lines).flatten.length < dashboardBufferSize →
    Appended id e (texts ++ lines) (writeDashboardLines id lines d offset,
      (texts ++ lines).flatten.length)
  | [], texts, d, offset, h, _, _ => by
    have hoffset := h.offset
    simp only at hoffset
    rw [List.append_nil, ← hoffset]
    exact h
  | line :: lines, texts, d, offset, h, hne, hshort => by
    obtain ⟨hline, hrest⟩ := List.forall_mem_cons.mp hne
    have hoffset := h.offset
    simp only at hoffset
    subst hoffset
    have hall : texts ++ line :: lines = (texts ++ [line]) ++ lines := by
      rw [List.append_assoc, List.singleton_append]
    have hlen : (texts ++ line :: lines).flatten.length
        = texts.flatten.length + (line.length + lines.flatten.length) := by
      rw [List.flatten_append, List.flatten_cons, List.length_append, List.length_append]
    rw [hlen] at hshort
    have hsize : dashboardBufferSize = 4096 := rfl
    have hlt : line.length < 2 ^ 31 := by omega
    have hn : texts.flatten.length < dashboardBufferSize := by omega
    have hpos := List.length_pos_of_ne_nil hline
    -- 一行を書いた後の dashboard から、残りの行を書く
    have hfits : (texts ++ [(DashboardCall.piece
      (.text line hlt) : DashboardCall id).text]).flatten.length
        < dashboardBufferSize := by
      rw [flatten_concat, List.length_append]
      show _ + line.length < _
      omega
    have hstep := h.step hfits (dashboardCallStep_piece h.inv h.mem hn _)
    have hmax : max (Vsnprintf.text line hlt).r 0 = (line.length : Int) :=
      max_eq_left (Int.natCast_nonneg _)
    rw [hmax] at hstep
    have hwrite : writeDashboardLines id (line :: lines) d texts.flatten.length
        = writeDashboardLines id lines
            (d.setItem id ((d.item id).snprintf _ hn (.text line hlt)))
            (texts.flatten.length + line.length) := by
      rw [writeDashboardLines, Vsnprintf.of_eq hlt]
      simp only [esqDashboardSnprintf_of_mem h.inv h.mem hn]
      exact if_neg (show ¬(line.length : Int) ≤ 0 by omega)
    rw [hwrite, hall]
    refine Appended.writeLines hstep hrest ?_
    rw [← hall, hlen]
    exact hshort

/--
**報告の全体が読めるのは、error が一つも無いときに限る。**

error があれば、読めるのは、報告の初めの、最後の行の長さだけである。
-/
theorem sync_report_reads_back_iff {ops : List DashboardOp}
    (hreach : runFrom EsqDashboard.step .init ops = some d) (hid : id ∈ d.rb.toList)
    {rep : SyncReport} (hshort : rep.lines.flatten.length < dashboardBufferSize) :
    esqMkcGetDashboardItemString (beeBucketSyncSessionWriteDashboard id rep d) id
        = .ok rep.lines.flatten ↔
      rep.sessionErr = none ∧ ∀ err ∈ rep.targetErrs, err = none := by
  have happ := (Appended.start (.reach hreach) hid).writeLines rep.lines_ne_nil hshort
  rw [List.nil_append] at happ
  have hfilter : rep.lines.filter (· ≠ []) = rep.lines :=
    List.filter_eq_self.mpr fun line hline => by simpa using rep.lines_ne_nil line hline
  -- 行が一つであるのは、error が無いときである
  have hone : OnePiece (d.item id).bufStringLength rep.lines ↔
      rep.sessionErr = none ∧ ∀ err ∈ rep.targetErrs, err = none := by
    have hlast : syncProcessedLine rep.processed ∈ rep.lines := by simp [SyncReport.lines]
    unfold OnePiece
    rw [hfilter, or_iff_left fun h => rep.lines_ne_nil _ hlast (h.1 _ hlast)]
    unfold SyncReport.lines
    rw [List.length_append, List.length_append, List.length_singleton, Nat.add_eq_right,
      Nat.add_eq_zero_iff, List.length_eq_zero_iff, List.length_eq_zero_iff, List.map_eq_nil_iff,
      List.filterMap_eq_nil_iff]
    simp
  rw [← hone, ← lastLength_eq_iff]
  have hread := happ.read
  unfold beeBucketSyncSessionWriteDashboard
  rw [hread, Except.ok.injEq]
  constructor
  · intro h
    have hlen := congrArg List.length h
    rwa [List.length_take_of_le] at hlen
    rw [EsqDashboardItem.length_buf, ← happ.length]
    exact (Fin.isLt _).le
  · intro h
    rw [h]
    exact happ.buf

def SyncReport.sample : SyncReport := ⟨none, [some (ascii "e")], 3⟩

/-- target の error を報告すると、全体は読めない。 -/
theorem sync_report_lost_sample :
    esqMkcGetDashboardItemString (beeBucketSyncSessionWriteDashboard 0 .sample .sample) 0
      ≠ .ok SyncReport.sample.lines.flatten := fun h => by
  have hread := (sync_report_reads_back_iff EsqDashboard.sample_reach (List.mem_singleton.mpr rfl)
    (by decide +kernel)).mp h
  exact absurd (hread.2 _ List.mem_cons_self) (by decide)

end

end Esq
