import Fabula.Clock
import Fabula.Proofs.Outcome
import Mathlib.Algebra.GroupWithZero.Nat
import Mathlib.Data.List.Iterate
import Mathlib.Data.List.Chain

/-!
# Clock readings

Counted in minutes since midnight, a clock advances by addition until it would
reach hour 25; then it falls back to 24 hours.  Below hour 25 only the sum of the
steps counts.  The readings of a clock that advances by equal steps ascend at
first, and `readings_ascend_iff` says for how long.

All this is about sums that fit 32 bits.  A step may fit although the minutes of
the reading together with it do not; then the clock goes back, as
`longest_step_turns_clock_back` shows.
-/

namespace Fabula.Clock

/-- The minutes from midnight to the reading. -/
def minutes (clock : Clock) : Nat :=
  60 * clock.hour + clock.minute

/-- A reading of fewer than 60 minutes and of at most 24 hours. -/
structure Regular (clock : Clock) : Prop where
  minute : clock.minute < 60
  hour : clock.hour ≤ 24

theorem set_regular {time : Nat} {clock : Clock} (started : set time = .ok clock) :
    clock.Regular := by
  rw [set] at started
  split at started
  · rename_i valid
    cases started
    simp only [isClockTime, Bool.and_eq_true, decide_eq_true_eq] at valid
    refine ⟨valid.1, ?_⟩
    have early := valid.2
    show time / 100 ≤ 24
    omega
  · cases started

theorem minute_advance (clock : Clock) (step : Nat) :
    (clock.advance step).minute =
      if clock.hour + clock.total step / 60 ≥ 25 then 0 else clock.total step % 60 := by
  show (if _ then _ else _) % 100 = _
  by_cases late : clock.hour + clock.total step / 60 ≥ 25
  · rw [if_pos late, if_pos late]
  · rw [if_neg late, if_neg late]
    omega

theorem hour_advance (clock : Clock) (step : Nat) :
    (clock.advance step).hour =
      if clock.hour + clock.total step / 60 ≥ 25 then 24
      else clock.hour + clock.total step / 60 := by
  show (if _ then _ else _) / 100 = _
  by_cases late : clock.hour + clock.total step / 60 ≥ 25
  · rw [if_pos late, if_pos late]
  · rw [if_neg late, if_neg late]
    omega

theorem advance_regular (clock : Clock) (step : Nat) : (clock.advance step).Regular := by
  constructor
  · rw [minute_advance]
    split <;> omega
  · rw [hour_advance]
    split <;> omega

/-- A clock advances by addition, and falls back to 24 hours where it would reach hour 25. -/
theorem minutes_advance {clock : Clock} (regular : clock.Regular) {step : Nat}
    (fits : clock.minute + step < Text.wordBound) :
    (clock.advance step).minutes =
      if clock.minutes + step < 1500 then clock.minutes + step else 1440 := by
  have minute := regular.minute
  unfold minutes
  rw [minute_advance, hour_advance, total_eq fits]
  split <;> split <;> omega

theorem minutes_lt {clock : Clock} (regular : clock.Regular) : clock.minutes < 1500 := by
  have minute := regular.minute
  have hour := regular.hour
  rw [minutes]
  omega

/-- Regular readings are ordered as the minutes since midnight are. -/
theorem time_lt_time_iff {clock other : Clock} (regular : clock.Regular)
    (otherRegular : other.Regular) :
    clock.time < other.time ↔ clock.minutes < other.minutes := by
  have minute := regular.minute
  have otherMinute := otherRegular.minute
  simp only [minutes, hour, Clock.minute] at *
  omega

/-- A clock before each of some equal steps. -/
def clocks (step : Nat) (clock : Clock) (count : Nat) : List Clock :=
  List.iterate (fun clock => clock.advance step) clock count

theorem clocks_succ (step : Nat) (clock : Clock) (count : Nat) :
    clocks step clock (count + 1) = clock :: clocks step (clock.advance step) count :=
  rfl

/-- The readings of a clock before each of some equal steps. -/
def readings (step : Nat) (clock : Clock) (count : Nat) : List Nat :=
  (clocks step clock count).map (·.time)

/--
Before how many steps the readings ascend: as long as the last of them is
reached by addition, and once more if this leads past 24 hours.  Where addition
fails at once, the step is longer than the hour that is left; and after 24 hours
no further reading can be greater.
-/
theorem readings_ascend_iff {clock : Clock} (regular : clock.Regular) {step : Nat}
    (positive : 0 < step) {count : Nat}
    (fits : ∀ passing ∈ clocks step clock count, passing.minute + step < Text.wordBound) :
    (readings step clock count).IsChain (· < ·) ↔
      clock.minutes + (count - 1) * step < 1500 ∨
        clock.minutes + (count - 2) * step < 1440 := by
  induction count generalizing clock with
  | zero =>
      have early := minutes_lt regular
      simp [readings, clocks, early]
  | succ count ih =>
      rw [clocks_succ, List.forall_mem_cons] at fits
      cases count with
      | zero =>
          have early := minutes_lt regular
          simp [readings, clocks, early]
      | succ count =>
          have split :
              readings step clock (count + 2) =
                clock.time :: readings step (clock.advance step) (count + 1) := by
            rfl
          have splitRest :
              readings step (clock.advance step) (count + 1) =
                (clock.advance step).time ::
                  readings step ((clock.advance step).advance step) count := by
            rfl
          rw [split, splitRest, List.isChain_cons_cons, ← splitRest,
            ih (advance_regular clock step) fits.2,
            time_lt_time_iff regular (advance_regular clock step),
            minutes_advance regular fits.1]
          have early := minutes_lt regular
          have product : (count + 1) * step = count * step + step :=
            Nat.succ_mul count step
          simp only [Nat.add_sub_cancel]
          cases count with
          | zero =>
              split <;> omega
          | succ count =>
              have smaller : (count + 1) * step = count * step + step :=
                Nat.succ_mul count step
              have same : count + 1 + 1 - 2 = count := by
                omega
              have sameRest : count + 1 + 1 + 1 - 2 = count + 1 := by
                omega
              simp only [same, sameRest] at *
              split <;> omega

end Fabula.Clock
