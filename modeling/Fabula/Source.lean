/-!
# Random sources

A source is an endless stream of 64-bit values and the number of values taken
from it.  Two sources of one stream that have taken equally many values give
the same values from then on.

A seed determines a stream: the key stream of the ChaCha cipher with twelve
rounds, under a key that is derived from the seed.  A state of the cipher is
four rows of four words.  A round adds, mixes and rotates whole rows; moving the
rows against each other turns columns into diagonals.
-/

namespace Fabula

/-! ## Pseudo-random streams -/

namespace Source

/-- Four words that are worked on together. -/
structure Row where
  first : UInt32
  second : UInt32
  third : UInt32
  fourth : UInt32

namespace Row

/-- Combine two rows word by word. -/
@[inline]
def zipWith (combine : UInt32 → UInt32 → UInt32) (left right : Row) : Row :=
  ⟨combine left.first right.first, combine left.second right.second,
    combine left.third right.third, combine left.fourth right.fourth⟩

/-- The sum of two rows, word by word. -/
@[inline]
def add (left right : Row) : Row :=
  zipWith (· + ·) left right

/-- The exclusive disjunction of two rows, with every word then rotated to the left. -/
@[inline]
def mix (bits : UInt32) (left right : Row) : Row :=
  zipWith (fun x y => let z := x ^^^ y; (z <<< bits) ||| (z >>> (32 - bits))) left right

/-- The row that begins with the second word and ends with the first. -/
@[inline]
def turn (row : Row) : Row :=
  ⟨row.second, row.third, row.fourth, row.first⟩

/-- The words of a row. -/
def words (row : Row) : List UInt32 :=
  [row.first, row.second, row.third, row.fourth]

end Row

/-- A state of the cipher. -/
structure State where
  a : Row
  b : Row
  c : Row
  d : Row

namespace State

/-- One round, on the columns. -/
@[inline]
def round (state : State) : State :=
  let a := state.a.add state.b
  let d := Row.mix 16 state.d a
  let c := state.c.add d
  let b := Row.mix 12 state.b c
  let a := a.add b
  let d := Row.mix 8 d a
  let c := c.add d
  let b := Row.mix 7 b c
  { a, b, c, d }

/-- Two rounds: one on the columns and one on the diagonals. -/
def doubleRound (state : State) : State :=
  let columns := state.round
  let diagonals :=
    State.round
      { a := columns.a
        b := columns.b.turn
        c := columns.c.turn.turn
        d := columns.d.turn.turn.turn }
  { a := diagonals.a
    b := diagonals.b.turn.turn.turn
    c := diagonals.c.turn.turn
    d := diagonals.d.turn }

/-- Several double rounds. -/
def rounds : Nat → State → State
  | 0, state => state
  | count + 1, state => rounds count state.doubleRound

/-- The words of a state, row by row. -/
def words (state : State) : List UInt32 :=
  state.a.words ++ state.b.words ++ state.c.words ++ state.d.words

/-- The sixteen words that the cipher makes of a state. -/
def keystream (state : State) : List UInt32 :=
  List.zipWith (· + ·) state.words (rounds 6 state).words

end State

/-- The first row of every state spells `expand 32-byte k`. -/
def constants : Row :=
  ⟨0x61707865, 0x3320646e, 0x79622d32, 0x6b206574⟩

/-- The state that makes the block with a given number under a key of two rows. -/
def initialState (upper lower : Row) (block : Nat) : State :=
  { a := constants
    b := upper
    c := lower
    d := ⟨UInt32.ofNat block, UInt32.ofNat (block / 0x100000000), 0, 0⟩ }

/-- The next state of the generator that stretches a seed into a key. -/
def stretch (seed : UInt64) : UInt64 :=
  seed * 6364136223846793005 + 11634580027462260723

/-- The word of the key that a state of this generator gives. -/
def keyWord (seed : UInt64) : UInt32 :=
  let mixed := (((seed >>> 18) ^^^ seed) >>> 27).toUInt32
  let bits := (seed >>> 59).toUInt32
  (mixed >>> bits) ||| (mixed <<< (32 - bits))

/-- The states of the generator after a seed. -/
def stretched : Nat → UInt64 → List UInt64
  | 0, _ => []
  | count + 1, seed => stretch seed :: stretched count (stretch seed)

/-- The key of a seed. -/
def key (seed : UInt64) : Row × Row :=
  match (stretched 8 seed).map keyWord with
  | [k₀, k₁, k₂, k₃, k₄, k₅, k₆, k₇] => (⟨k₀, k₁, k₂, k₃⟩, ⟨k₄, k₅, k₆, k₇⟩)
  | _ => (⟨0, 0, 0, 0⟩, ⟨0, 0, 0, 0⟩)

/-- The 64-bit value with a given number in the stream of a key. -/
def keyedStream (key : Row × Row) (number : Nat) : UInt64 :=
  let block := (initialState key.1 key.2 (number / 8)).keystream
  let low := block.getD (2 * (number % 8)) 0
  let high := block.getD (2 * (number % 8) + 1) 0
  low.toUInt64 ||| (high.toUInt64 <<< 32)

end Source

/-! ## Sources -/

/-- A stream of values, and how many of them have been taken. -/
structure Source where
  stream : Nat → UInt64
  taken : Nat

namespace Source

/-- An untouched source of a stream. -/
def ofStream (stream : Nat → UInt64) : Source :=
  { stream, taken := 0 }

/-- The source that a seed determines. -/
def ofSeed (seed : UInt64) : Source :=
  ofStream (keyedStream (key seed))

/-- The source of the values `start`, `start + increment`, and so on. -/
def ofStep (start increment : UInt64) : Source :=
  ofStream fun number => start + increment * UInt64.ofNat number

/-- The source of some values that are repeated endlessly; without values it gives zeros. -/
def ofCycle (values : Array UInt64) : Source :=
  ofStream fun number => values.getD (number % values.size) 0

/-- The float in `[0, 1)` that the upper 53 bits of a value stand for. -/
def toUnit (value : UInt64) : Float :=
  (value >>> 11).toFloat / 9007199254740992.0

/-- Take the next value of a source as a float in `[0, 1)`. -/
def draw (source : Source) : Float × Source :=
  (toUnit (source.stream source.taken), { source with taken := source.taken + 1 })

end Source

end Fabula
