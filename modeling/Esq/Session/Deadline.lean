import Esq.Infra.LittleEndian

/-!
# 締め切りの比較

`session/timing.c` の `RECORD_WIND_UP_TIME` と `CHECK_EVENTS_TIMING2` の時刻の計算。

session は timing list に入った時刻を秒と `tv_usec` に分けて持つ。後者の欄の名前は
`wind_up_ms` だが、入るのはマイクロ秒である。締め切りは秒と秒、端数と端数で別々に比べ、
端数どうしの和は秒に繰り上がらない。`timeoutms` はミリ秒のまま足される。

* `timesOut_iff` — 比較の結果が、経った時間が timeout に達したことと合うのは `TickCond` のとき
-/

namespace Esq

open Infra

/-! ## 時刻 -/

/-- `struct timeval`。`gettimeofday` の `tv_usec` は一秒に満たない。 -/
structure TimeVal where
  sec : Int
  usec : Int
  usec_nonneg : 0 ≤ usec
  usec_lt : usec < 1000000
deriving DecidableEq, Repr

def TimeVal.micros (t : TimeVal) : Int := t.sec * 1000000 + t.usec

structure WindUp where
  s : Int := 0
  ms : Int := 0
deriving DecidableEq, Repr

/-- `RECORD_WIND_UP_TIME` が書く値。`int` に入る。 -/
def WindUp.record (t : TimeVal) : WindUp where
  s := toInt32 t.sec
  ms := toInt32 t.usec

/-- `CHECK_EVENTS_TIMING2` が `__esq_notify_timeout_event` に進む。 -/
def timesOut (u : WindUp) (timeouts timeoutms : Int) (now : TimeVal) : Bool :=
  let nowSec := toInt32 now.sec
  let nowMs := toInt32 now.usec
  let eDeadlineSec := toInt32 (u.s + timeouts)
  if nowSec > eDeadlineSec then true
  else if nowSec = eDeadlineSec then nowMs > toInt32 (u.ms + timeoutms)
  else false

/-- 経った時間が `timeouts` 秒と `timeoutms` ミリ秒に達している。 -/
def DeadlinePassed (windUp : TimeVal) (timeouts timeoutms : Int) (now : TimeVal) : Prop :=
  timeouts * 1000000 + timeoutms * 1000 ≤ now.micros - windUp.micros

instance (windUp : TimeVal) (s ms : Int) (now : TimeVal) :
    Decidable (DeadlinePassed windUp s ms now) :=
  inferInstanceAs (Decidable (_ ≤ _))

/-! ## 比較が正しいとき -/

/-- `wind_up_s + timeouts` の秒を過ぎてからの秒数。前なら負になる。 -/
def secondsPast (windUp : TimeVal) (timeouts : Int) (now : TimeVal) : Int :=
  now.sec - (windUp.sec + timeouts)

def usecPast (windUp now : TimeVal) : Int := now.usec - windUp.usec

/-- `int` の秒の差が、本当の差と同じである。 -/
def SecondsFit (windUp : TimeVal) (timeouts : Int) (now : TimeVal) : Prop :=
  toInt32 now.sec - toInt32 (windUp.sec + timeouts) = secondsPast windUp timeouts now

/--
秒が `int` の中で一周していないときに、比較が正しい条件。

締め切りの秒より前の時刻は必ず正しい。締め切りの秒のうちに見た時刻は、端数の差が
`timeoutms` マイクロ秒と `timeoutms` ミリ秒の間に入らず、`timeoutms` が 0 なら端数まで
同じではないときに正しい。それより後の秒に見た時刻は、繰り上がる端数も過ぎているときに正しい。
-/
structure TickCond.Unwrapped (windUp : TimeVal) (timeouts timeoutms : Int) (now : TimeVal) :
    Prop where
  fits : secondsPast windUp timeouts now = 0 → windUp.usec + timeoutms < 2 ^ 31
  same : secondsPast windUp timeouts now = 0 →
    usecPast windUp now ≤ timeoutms ∨ 1000 * timeoutms ≤ usecPast windUp now
  exact : secondsPast windUp timeouts now = 0 → timeoutms = 0 → usecPast windUp now ≠ 0
  later : 0 < secondsPast windUp timeouts now →
    1000 * timeoutms ≤ 1000000 * secondsPast windUp timeouts now + usecPast windUp now

/-- 秒が `int` の中で一周したときに、比較が正しい条件。 -/
structure TickCond.Wrapped (windUp : TimeVal) (timeouts timeoutms : Int) (now : TimeVal) :
    Prop where
  past : 0 < secondsPast windUp timeouts now
  once : secondsPast windUp timeouts now < 2 ^ 32 →
    1000000 * secondsPast windUp timeouts now + usecPast windUp now < 1000 * timeoutms
  often : 2 ^ 32 ≤ secondsPast windUp timeouts now →
    toInt32 (windUp.sec + timeouts) < toInt32 now.sec ∨
      toInt32 (windUp.sec + timeouts) = toInt32 now.sec ∧
        toInt32 (windUp.usec + timeoutms) < now.usec

def TickCond (windUp : TimeVal) (timeouts timeoutms : Int) (now : TimeVal) : Prop :=
  (SecondsFit windUp timeouts now → TickCond.Unwrapped windUp timeouts timeoutms now) ∧
    (¬ SecondsFit windUp timeouts now → TickCond.Wrapped windUp timeouts timeoutms now)

section

variable {windUp now : TimeVal} {timeouts timeoutms : Int}

theorem toInt32_usec (t : TimeVal) : toInt32 t.usec = t.usec :=
  toInt32_of_range (by have := t.usec_nonneg; omega) (by have := t.usec_lt; omega)

theorem deadlinePassed_iff : DeadlinePassed windUp timeouts timeoutms now ↔
    1000 * timeoutms ≤ 1000000 * secondsPast windUp timeouts now + usecPast windUp now := by
  unfold DeadlinePassed TimeVal.micros secondsPast usecPast
  omega

theorem timesOut_record : timesOut (.record windUp) timeouts timeoutms now = true ↔
    toInt32 (windUp.sec + timeouts) < toInt32 now.sec ∨
      toInt32 (windUp.sec + timeouts) = toInt32 now.sec ∧
        toInt32 (windUp.usec + timeoutms) < now.usec := by
  have hsec : toInt32 (toInt32 windUp.sec + timeouts) = toInt32 (windUp.sec + timeouts) := by
    simp only [toInt32_eq]
    omega
  unfold timesOut WindUp.record
  simp only [hsec, toInt32_usec, gt_iff_lt]
  by_cases hlt : toInt32 (windUp.sec + timeouts) < toInt32 now.sec
  · simp [hlt]
  · by_cases heq : toInt32 now.sec = toInt32 (windUp.sec + timeouts)
    · simp [heq]
    · have hne : toInt32 (windUp.sec + timeouts) ≠ toInt32 now.sec := fun h => heq h.symm
      simp [hlt, heq, hne]

theorem usecPast_bounds (windUp now : TimeVal) :
    -1000000 < usecPast windUp now ∧ usecPast windUp now < 1000000 := by
  have h0 := windUp.usec_nonneg
  have h0' := windUp.usec_lt
  have h1 := now.usec_nonneg
  have h1' := now.usec_lt
  unfold usecPast
  omega

theorem neg_le_secondsPast (hlater : windUp.micros ≤ now.micros) :
    -timeouts ≤ secondsPast windUp timeouts now := by
  have he := usecPast_bounds windUp now
  unfold TimeVal.micros at hlater
  unfold usecPast at he
  unfold secondsPast
  omega

theorem timesOut_iff_of_fit (hms : 0 ≤ timeoutms) (hmsint : timeoutms < 2 ^ 31)
    (hfit : SecondsFit windUp timeouts now) :
    (timesOut (.record windUp) timeouts timeoutms now = true ↔
      DeadlinePassed windUp timeouts timeoutms now) ↔
      TickCond.Unwrapped windUp timeouts timeoutms now := by
  rw [timesOut_record, deadlinePassed_iff]
  have he := usecPast_bounds windUp now
  have hnow := now.usec_lt
  have hnow0 := now.usec_nonneg
  have hwind := windUp.usec_nonneg
  unfold SecondsFit at hfit
  rcases lt_trichotomy (secondsPast windUp timeouts now) 0 with hd | hd | hd
  · -- 締め切りの秒より前
    refine iff_of_true ?_ ⟨by omega, by omega, by omega, by omega⟩
    omega
  · have hsame : toInt32 (windUp.sec + timeouts) = toInt32 now.sec := by omega
    have hover : ¬ windUp.usec + timeoutms < 2 ^ 31 →
        toInt32 (windUp.usec + timeoutms) < now.usec := by
      have := windUp.usec_lt
      rw [toInt32_eq]
      omega
    have hunder : windUp.usec + timeoutms < 2 ^ 31 →
        toInt32 (windUp.usec + timeoutms) = windUp.usec + timeoutms :=
      fun h => toInt32_of_range (by omega) h
    rw [hd, hsame]
    constructor
    · intro h
      have hfits : windUp.usec + timeoutms < 2 ^ 31 := by
        by_contra hbig
        have hlate := h.mp (Or.inr ⟨rfl, hover hbig⟩)
        have := windUp.usec_lt
        omega
      rw [hunder hfits] at h
      unfold usecPast at h
      refine ⟨fun _ => hfits, fun _ => ?_, fun _ => ?_, by omega⟩
      · unfold usecPast
        omega
      · unfold usecPast
        omega
    · intro h
      have hsm := h.same hd
      have hex := h.exact hd
      rw [hunder (h.fits hd)]
      unfold usecPast at hsm hex ⊢
      omega
  · -- 締め切りの秒より後では必ず知らせる
    have hlt : toInt32 (windUp.sec + timeouts) < toInt32 now.sec := by omega
    constructor
    · intro h
      exact ⟨by omega, by omega, by omega, fun _ => h.mp (Or.inl hlt)⟩
    · intro h
      exact iff_of_true (Or.inl hlt) (h.later hd)

theorem timesOut_iff_of_wrapped (hs : 0 ≤ timeouts) (hsint : timeouts < 2 ^ 31)
    (hms : 0 ≤ timeoutms) (hmsint : timeoutms < 2 ^ 31)
    (hlater : windUp.micros ≤ now.micros) (hfit : ¬ SecondsFit windUp timeouts now) :
    (timesOut (.record windUp) timeouts timeoutms now = true ↔
      DeadlinePassed windUp timeouts timeoutms now) ↔
      TickCond.Wrapped windUp timeouts timeoutms now := by
  rw [timesOut_record, deadlinePassed_iff]
  have he := usecPast_bounds windUp now
  have hd : -timeouts ≤ secondsPast windUp timeouts now := neg_le_secondsPast hlater
  obtain ⟨q, hq⟩ : ∃ q, toInt32 now.sec - toInt32 (windUp.sec + timeouts)
      = secondsPast windUp timeouts now + 2 ^ 32 * q := by
    refine ⟨(windUp.sec + timeouts + 2 ^ 31) / 2 ^ 32 - (now.sec + 2 ^ 31) / 2 ^ 32, ?_⟩
    unfold secondsPast
    simp only [toInt32_eq]
    omega
  have hN := toInt32_bounds now.sec
  have hS := toInt32_bounds (windUp.sec + timeouts)
  have hq0 : q ≠ 0 := by
    rintro rfl
    exact hfit (by unfold SecondsFit; omega)
  rcases lt_trichotomy (secondsPast windUp timeouts now) 0 with hneg | hzero | hpos
  · -- 一周した差は正に見えるので、早く知らせる
    have hlt : toInt32 (windUp.sec + timeouts) < toInt32 now.sec := by omega
    refine iff_of_false (fun h => ?_) fun h => by have := h.past; omega
    have := h.mp (Or.inl hlt)
    omega
  · omega
  · by_cases hbig : secondsPast windUp timeouts now < 2 ^ 32
    · -- 差は負に見えるので、知らせない
      have hlt : toInt32 now.sec < toInt32 (windUp.sec + timeouts) := by omega
      constructor
      · intro h
        refine ⟨hpos, fun _ => ?_, by omega⟩
        by_contra hdue
        have := h.mpr (by omega)
        omega
      · intro h
        have := h.once hbig
        omega
    · have hdue : 1000 * timeoutms ≤
          1000000 * secondsPast windUp timeouts now + usecPast windUp now := by omega
      constructor
      · intro h
        exact ⟨hpos, by omega, fun _ => h.mpr hdue⟩
      · intro h
        exact iff_of_true (h.often (by omega)) hdue

/-- **比較の結果は、`TickCond` のときに限って、timeout に達したことと合う。** -/
theorem timesOut_iff (hs : 0 ≤ timeouts) (hsint : timeouts < 2 ^ 31)
    (hms : 0 ≤ timeoutms) (hmsint : timeoutms < 2 ^ 31) (hlater : windUp.micros ≤ now.micros) :
    (timesOut (.record windUp) timeouts timeoutms now = true ↔
      DeadlinePassed windUp timeouts timeoutms now) ↔ TickCond windUp timeouts timeoutms now := by
  by_cases hfit : SecondsFit windUp timeouts now
  · rw [timesOut_iff_of_fit hms hmsint hfit]
    exact ⟨fun h => ⟨fun _ => h, fun hn => absurd hfit hn⟩, fun h => h.1 hfit⟩
  · rw [timesOut_iff_of_wrapped hs hsint hms hmsint hlater hfit]
    exact ⟨fun h => ⟨fun hf => absurd hf hfit, fun _ => h⟩, fun h => h.2 hfit⟩

end

end Esq
