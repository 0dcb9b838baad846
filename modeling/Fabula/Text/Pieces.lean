/-!
# Blanks, and texts cut into pieces

Which characters count as blank space, and how blanks are trimmed off a text or
cut it into words.  Besides words, a text has lines, pieces between two marks, and
the parts before and after the first occurrence of a mark.  A mark is a nonempty
list of characters; occurrences are looked for from the left and do not overlap.
-/

namespace Fabula.Text

/-! ## Blanks -/

/-- Whether a character has the Unicode property `White_Space`. -/
def isBlank (c : Char) : Bool :=
  let code := c.toNat
  (0x9 ≤ code && code ≤ 0xD) || code == 0x20 || code == 0x85 || code == 0xA0 ||
    code == 0x1680 || (0x2000 ≤ code && code ≤ 0x200A) || code == 0x2028 ||
    code == 0x2029 || code == 0x202F || code == 0x205F || code == 0x3000

/-- A text without the blanks at its beginning. -/
def trimStart (text : List Char) : List Char :=
  text.dropWhile isBlank

/-- A text without the blanks at its end. -/
def trimEnd (text : List Char) : List Char :=
  (text.reverse.dropWhile isBlank).reverse

/-- A text without the blanks at either end. -/
def trim (text : List Char) : List Char :=
  trimEnd (trimStart text)

/-- The maximal runs of characters that are not blank, in order. -/
def words (text : List Char) : List (List Char) :=
  (text.splitOnP isBlank).filter (!·.isEmpty)

/-! ## Pieces -/

/-- Cut a text at the first occurrence of `mark`; `before` has been passed over, backwards. -/
def cutFrom? (mark before : List Char) : List Char → Option (List Char × List Char)
  | [] => if mark.isEmpty then some (before.reverse, []) else none
  | c :: rest =>
      match mark.isPrefixOf? (c :: rest) with
      | some after => some (before.reverse, after)
      | none => cutFrom? mark (c :: before) rest

/-- A text cut at the first occurrence of `mark`: what stands before and after it. -/
def cut? (mark text : List Char) : Option (List Char × List Char) :=
  cutFrom? mark [] text

theorem isPrefixOf?_singleton (c d : Char) (rest : List Char) :
    [c].isPrefixOf? (d :: rest) = if c == d then some rest else none :=
  rfl

theorem cutFrom?_singleton {c : Char} {text passed before after : List Char} :
    cutFrom? [c] passed text = some (before, after) ↔
      ∃ piece, before = passed.reverse ++ piece ∧ text = piece ++ c :: after ∧ c ∉ piece := by
  induction text generalizing passed with
  | nil => simp [cutFrom?]
  | cons d rest ih =>
      by_cases same : c = d
      · simp only [cutFrom?, isPrefixOf?_singleton, same, BEq.rfl, if_true, Option.some.injEq,
          Prod.mk.injEq]
        constructor
        · rintro ⟨rfl, rfl⟩
          exact ⟨[], by simp, rfl, by simp⟩
        · rintro ⟨piece, rfl, split, absent⟩
          cases piece with
          | nil =>
              cases split
              simp
          | cons e piece =>
              cases split
              simp at absent
      · have other : (c == d) = false := by
          simpa using same
        simp only [cutFrom?, isPrefixOf?_singleton, other, Bool.false_eq_true, if_false, ih]
        constructor
        · rintro ⟨piece, rfl, rfl, absent⟩
          exact ⟨d :: piece, by simp, rfl, by simp [same, absent]⟩
        · rintro ⟨piece, rfl, split, absent⟩
          cases piece with
          | nil =>
              cases split
              exact absurd rfl same
          | cons e piece =>
              cases split
              exact ⟨piece, by simp, rfl, fun member => absent (List.mem_cons_of_mem _ member)⟩

/-- A text is cut where a single character occurs for the first time. -/
theorem cut?_singleton {c : Char} {text before after : List Char} :
    cut? [c] text = some (before, after) ↔ text = before ++ c :: after ∧ c ∉ before := by
  rw [cut?, cutFrom?_singleton]
  constructor
  · rintro ⟨piece, rfl, split, absent⟩
    exact ⟨split, absent⟩
  · rintro ⟨split, absent⟩
    exact ⟨before, rfl, split, absent⟩

/--
The pieces of a text between the occurrences of `mark`.  `done` are the pieces
that are complete, the last one first, `skip` counts the characters of an
occurrence that are still to be passed over, and `piece` is the present piece
backwards.
-/
def piecesFrom (mark : List Char) (done : List (List Char)) :
    (skip : Nat) → (piece : List Char) → List Char → List (List Char)
  | _, piece, [] => (piece.reverse :: done).reverse
  | skip + 1, piece, _ :: rest => piecesFrom mark done skip piece rest
  | 0, piece, c :: rest =>
      if mark.isPrefixOf (c :: rest) then
        piecesFrom mark (piece.reverse :: done) (mark.length - 1) [] rest
      else
        piecesFrom mark done 0 (c :: piece) rest

/-- The pieces of a text between the occurrences of `mark`, empty ones included. -/
def pieces (mark text : List Char) : List (List Char) :=
  piecesFrom mark [] 0 [] text

/-- The parts of a text between the marks `mark`, trimmed, without the empty ones. -/
def parts (mark : Char) (text : List Char) : List (List Char) :=
  ((text.splitOn mark).map trim).filter (!·.isEmpty)

/-- A line without the carriage return that ends it. -/
def dropReturn (line : List Char) : List Char :=
  if line.getLast? = some '\r' then line.dropLast else line

/--
The lines of a text.  A line ends at a line feed, and one carriage return
before that line feed belongs to the line end.  What follows the last line
feed is a line only if it is not empty, and it is kept as it stands.
-/
def lines (text : List Char) : List (List Char) :=
  let segments := text.splitOn '\n'
  let last := segments.getLastD []
  segments.dropLast.map dropReturn ++ if last.isEmpty then [] else [last]

/-- Texts written one after another with `separator` between them. -/
def join (separator : List Char) (texts : List (List Char)) : List Char :=
  separator.intercalate texts

end Fabula.Text
