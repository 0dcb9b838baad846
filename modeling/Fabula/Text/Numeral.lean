/-!
# Whole numbers in texts

Reading a number from decimal digits, under a bound, and writing one with a
least number of digits.
-/

namespace Fabula.Text

/-- The value of a decimal digit. -/
def digitValue (c : Char) : Nat :=
  c.toNat - '0'.toNat

/-- A number with one more decimal digit behind it. -/
def appendDigit (value : Nat) (c : Char) : Nat :=
  10 * value + digitValue c

/-- The number that a list of decimal digits stands for. -/
def digitsValue (digits : List Char) : Nat :=
  digits.foldl appendDigit 0

/-- A number with one more decimal digit behind it, if this is below `bound`. -/
def appendDigit? (bound value : Nat) (c : Char) : Option Nat :=
  if appendDigit value c < bound then some (appendDigit value c) else none

theorem le_foldl_appendDigit (value : Nat) (digits : List Char) :
    value ≤ digits.foldl appendDigit value := by
  induction digits generalizing value with
  | nil => exact Nat.le_refl value
  | cons c rest ih =>
      have step : value ≤ appendDigit value c := by
        simp only [appendDigit]
        omega
      exact Nat.le_trans step (ih _)

theorem foldlM_appendDigit? {bound value : Nat} (digits : List Char) (below : value < bound) :
    digits.foldlM (appendDigit? bound) value =
      if digits.foldl appendDigit value < bound then
        some (digits.foldl appendDigit value)
      else
        none := by
  induction digits generalizing value with
  | nil => simp [below]
  | cons c rest ih =>
      by_cases step : appendDigit value c < bound
      · rw [List.foldlM_cons, appendDigit?, if_pos step]
        exact ih step
      · have beyond := le_foldl_appendDigit (appendDigit value c) rest
        have final : ¬ rest.foldl appendDigit (appendDigit value c) < bound := by omega
        simp [appendDigit?, step, final]

/-- Read a nonempty run of decimal digits as a number, which must stay below `bound`. -/
def readDigits? (bound : Nat) (digits : List Char) : Option Nat :=
  if digits.isEmpty || !digits.all Char.isDigit then
    none
  else
    digits.foldlM (appendDigit? bound) 0

theorem readDigits?_eq {bound : Nat} (digits : List Char) (positive : 0 < bound) :
    readDigits? bound digits =
      if digits.isEmpty || !digits.all Char.isDigit then
        none
      else if digitsValue digits < bound then
        some (digitsValue digits)
      else
        none := by
  rw [readDigits?, foldlM_appendDigit? digits positive]
  rfl

/-- Read an optional plus sign and a nonempty run of digits as a number below `bound`. -/
def readNat? (bound : Nat) : List Char → Option Nat
  | '+' :: digits => readDigits? bound digits
  | digits => readDigits? bound digits

/-- Counts, clock times, minutes, limits and durations have 32 bits: they are below this bound. -/
def wordBound : Nat := 0x100000000

/-- Seeds have 64 bits: they are below this bound. -/
def seedBound : Nat := 0x10000000000000000

/-- A number in decimal, filled up with zeros on the left to `width` digits. -/
def padded (width number : Nat) : String :=
  let digits := Nat.toDigits 10 number
  String.ofList (List.replicate (width - digits.length) '0' ++ digits)

end Fabula.Text
