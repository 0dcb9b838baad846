import Fabula.Error
import Fabula.Text.Numeral

/-!
# The clock

The time of day as a reading `HHMM`, and the minutes that have passed since
the clock was set.  Rules compare the reading; the durations of facts are
measured in minutes passed, which do not start over at midnight.

Minutes are added in 32 bits.  A sum that does not fit starts over at zero, be
it the sum of the minutes passed or the one that is carried into the hours.
-/

namespace Fabula

/-- A clock: its reading, and the minutes passed since it was set. -/
structure Clock where
  time : Nat
  elapsed : Nat
deriving DecidableEq, Repr

/-- Whether a number is a time of day at which a clock can be set. -/
def isClockTime (time : Nat) : Bool :=
  time % 100 < 60 && time ≤ 2400

namespace Clock

/-- A clock set to a time of day. -/
def set (time : Nat) : Except Error Clock :=
  if isClockTime time then .ok { time, elapsed := 0 } else .error (.invalidClock time)

/-- The hours of the reading. -/
def hour (clock : Clock) : Nat :=
  clock.time / 100

/-- The minutes of the reading. -/
def minute (clock : Clock) : Nat :=
  clock.time % 100

/-- The minutes of the reading together with some more. -/
def total (clock : Clock) (minutes : Nat) : Nat :=
  (clock.minute + minutes) % Text.wordBound

/--
Let some minutes pass.  Full hours carry into the hours of the reading, and a
reading that would reach hour 25 stays at 2400 instead.
-/
def advance (clock : Clock) (minutes : Nat) : Clock :=
  let hour := clock.hour + clock.total minutes / 60
  { time := if hour ≥ 25 then 2400 else hour * 100 + clock.total minutes % 60
    elapsed := (clock.elapsed + minutes) % Text.wordBound }

theorem total_eq {clock : Clock} {minutes : Nat}
    (fits : clock.minute + minutes < Text.wordBound) :
    clock.total minutes = clock.minute + minutes :=
  Nat.mod_eq_of_lt fits

theorem elapsed_advance {clock : Clock} {minutes : Nat}
    (fits : clock.elapsed + minutes < Text.wordBound) :
    (clock.advance minutes).elapsed = clock.elapsed + minutes :=
  Nat.mod_eq_of_lt fits

end Clock

end Fabula
