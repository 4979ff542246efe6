import Muduo.Basics
import Mathlib.Data.Int.Order.Basic

/-!
# The relative deadline of the descriptor

`detail::howMuchTimeFromNow` of `TimerQueue.cpp`, and what `detail::resetTimerfd` passes to
`timerfd_settime`.  A `Timestamp` goes by its `microSecondsSinceEpoch()`, and the difference
of two is an `int64_t`.  The clamp makes it at least 100 microseconds, so what is passed is
never zero, and both parts of it are in range.  But a time before `now - 2^63` wraps to one
in the far future, which the clamp lets through.
-/

namespace Muduo

def IsInt64 (k : Int) : Prop := -2 ^ 63 ≤ k ∧ k < 2 ^ 63

instance (k : Int) : Decidable (IsInt64 k) := inferInstanceAs (Decidable (_ ∧ _))

structure Timespec where
  tv_sec : Int
  tv_nsec : Int
deriving DecidableEq, Repr

structure Itimerspec where
  it_interval : Timespec
  it_value : Timespec
deriving DecidableEq, Repr

namespace detail

def kMicroSecondsPerSecond : Int := 1000 * 1000

/-- The microseconds until `when_`, before they are split. -/
def microseconds (when_ now : Int) : Int :=
  let microseconds := Int.bmod (when_ - now) (2 ^ 64)
  if microseconds < 100 then 100 else microseconds

def howMuchTimeFromNow (when_ now : Int) : Timespec where
  tv_sec := (microseconds when_ now).tdiv kMicroSecondsPerSecond
  tv_nsec := (microseconds when_ now).tmod kMicroSecondsPerSecond * 1000

/-- What `resetTimerfd(timerfd, expiration)` passes to `timerfd_settime`. -/
def newValue (expiration now : Int) : Itimerspec where
  it_interval := ⟨0, 0⟩
  it_value := howMuchTimeFromNow expiration now

/-- The duration in nanoseconds. -/
def nanoseconds (ts : Timespec) : Int := ts.tv_sec * 10 ^ 9 + ts.tv_nsec

/-- A zero `it_value` disarms the descriptor. -/
def disarms (value : Itimerspec) : Prop := value.it_value = ⟨0, 0⟩

/-- The descriptor is armed with a legal `timespec` of `max(100, when - now)` microseconds. -/
structure ExactDeadline (when_ now : Int) : Prop where
  sec_nonneg : 0 ≤ (howMuchTimeFromNow when_ now).tv_sec
  nsec_nonneg : 0 ≤ (howMuchTimeFromNow when_ now).tv_nsec
  nsec_lt : (howMuchTimeFromNow when_ now).tv_nsec < 10 ^ 9
  exact : nanoseconds (howMuchTimeFromNow when_ now) = max 100 (when_ - now) * 1000
  armed : ¬ disarms (newValue when_ now)
  overdue : when_ ≤ now → howMuchTimeFromNow when_ now = ⟨0, 100000⟩

/-! ### The split -/

theorem microseconds_ge (when_ now : Int) : 100 ≤ microseconds when_ now := by
  unfold microseconds
  simp only
  split <;> omega

/-- Division and remainder of a duration that is not negative. -/
theorem nanoseconds_howMuchTimeFromNow (when_ now : Int) :
    nanoseconds (howMuchTimeFromNow when_ now) = microseconds when_ now * 1000 := by
  have hsplit := Int.mul_tdiv_add_tmod (microseconds when_ now) kMicroSecondsPerSecond
  unfold nanoseconds howMuchTimeFromNow
  unfold kMicroSecondsPerSecond at *
  simp only
  omega

theorem howMuchTimeFromNow_range (when_ now : Int) :
    0 ≤ (howMuchTimeFromNow when_ now).tv_sec ∧ 0 ≤ (howMuchTimeFromNow when_ now).tv_nsec ∧
      (howMuchTimeFromNow when_ now).tv_nsec < 10 ^ 9 := by
  have hnonneg : 0 ≤ microseconds when_ now := by
    have hge := microseconds_ge when_ now
    omega
  have hmod := Int.tmod_lt_of_pos (microseconds when_ now) (b := kMicroSecondsPerSecond) (by decide)
  have hmod_nonneg := Int.tmod_nonneg kMicroSecondsPerSecond hnonneg
  refine ⟨Int.tdiv_nonneg hnonneg (by decide), ?_, ?_⟩
  · exact Int.mul_nonneg hmod_nonneg (by decide)
  · unfold howMuchTimeFromNow
    unfold kMicroSecondsPerSecond at *
    simp only
    omega

theorem not_disarms (when_ now : Int) : ¬ disarms (newValue when_ now) := by
  intro hzero
  have hnano := nanoseconds_howMuchTimeFromNow when_ now
  have hge := microseconds_ge when_ now
  have hvalue : howMuchTimeFromNow when_ now = ⟨0, 0⟩ := hzero
  rw [hvalue] at hnano
  unfold nanoseconds at hnano
  simp only at hnano
  omega

/-! ### The difference -/

/-- The difference of a time and a clock reading that is not negative wraps below only, and
    once. -/
theorem bmod_difference {when_ now : Int} (hwhen : IsInt64 when_) (hnow : IsInt64 now)
    (hclock : 0 ≤ now) :
    Int.bmod (when_ - now) (2 ^ 64) =
      if -2 ^ 63 ≤ when_ - now then when_ - now else when_ - now + 2 ^ 64 := by
  unfold IsInt64 at hwhen hnow
  split
  · exact Int.bmod_eq_of_le (by omega) (by omega)
  · have hcancel : Int.bmod (when_ - now + (2 ^ 64 : Nat)) (2 ^ 64) =
        Int.bmod (when_ - now) (2 ^ 64) := Int.add_bmod_right _ _
    rw [← hcancel]
    exact Int.bmod_eq_of_le (by omega) (by omega)

theorem microseconds_eq_iff {when_ now : Int} (hwhen : IsInt64 when_) (hnow : IsInt64 now)
    (hclock : 0 ≤ now) :
    microseconds when_ now = max 100 (when_ - now) ↔
      -2 ^ 63 ≤ when_ - now ∨ when_ - now + 2 ^ 64 ≤ 100 := by
  unfold microseconds
  rw [bmod_difference hwhen hnow hclock]
  unfold IsInt64 at hwhen hnow
  simp only
  split <;> split <;> omega

theorem exactDeadline_of_eq {when_ now : Int}
    (h : microseconds when_ now = max 100 (when_ - now)) : ExactDeadline when_ now := by
  obtain ⟨hsec, hnsec, hlt⟩ := howMuchTimeFromNow_range when_ now
  refine ⟨hsec, hnsec, hlt, ?_, not_disarms when_ now, fun hpast => ?_⟩
  · rw [nanoseconds_howMuchTimeFromNow, h]
  · have hclamped : microseconds when_ now = 100 := by omega
    rw [howMuchTimeFromNow, hclamped]
    decide

/-- **When the deadline is exact.**  For every time and every clock reading that is not
    negative: when their difference is an `int64_t`, or wraps to what the clamp raises. -/
theorem exact_deadline_iff (when_ now : Int) (hwhen : IsInt64 when_) (hnow : IsInt64 now)
    (hclock : 0 ≤ now) :
    ExactDeadline when_ now ↔ -2 ^ 63 ≤ when_ - now ∨ when_ - now + 2 ^ 64 ≤ 100 := by
  rw [← microseconds_eq_iff hwhen hnow hclock]
  constructor
  · intro h
    have hexact := h.exact
    rw [nanoseconds_howMuchTimeFromNow] at hexact
    omega
  · exact exactDeadline_of_eq

/-- A time one second ahead, and one that is past. -/
theorem exact_deadline_iff_2023 :
    ExactDeadline 1700000001000000 1700000000000000 ∧ ExactDeadline 0 1700000000000000 := by
  constructor
  · rw [exact_deadline_iff _ _ (by decide) (by decide) (by decide)]
    decide
  · rw [exact_deadline_iff _ _ (by decide) (by decide) (by decide)]
    decide

/-- The earliest `Timestamp` there is, in 2023, fires in 292 thousand years. -/
theorem earliest_time_never_fires :
    IsInt64 (-2 ^ 63) ∧
      howMuchTimeFromNow (-2 ^ 63) 1700000000000000 = ⟨9221672036854, 775808000⟩ ∧
      ¬ ExactDeadline (-2 ^ 63) 1700000000000000 := by
  refine ⟨by decide, by decide, fun h => ?_⟩
  have hoverdue := h.overdue (by decide)
  revert hoverdue
  decide

end detail

end Muduo
