import Fabula.Lexicon
import Fabula.Proofs.Composition

/-!
# What a lexicon says

A lexicon is read line by line.  A line that counts is an entry if it has exactly
one colon, and the first line that has none or more is refused, by its number
among all lines.  For each name the last of its entries holds.  So a text behind
another overrides it name by name.
-/

namespace Fabula.Lexicon

open Outcome Script Text

/-! ## Lines -/

/-- A line counts: trimmed it is neither empty nor a comment, and it is read in capital letters. -/
structure ReadAs (raw line : List Char) : Prop where
  nonempty : trim raw ≠ []
  uncommented : (trim raw).head? ≠ some '%'
  capitals : line = upper (trim raw)

/-- A line with a single colon: a name before it, and phrases behind it between commas. -/
structure IsEntry (line : List Char) (name : String) (phrases : List String) : Prop where
  split : ∃ before after, line = before ++ ':' :: after ∧ ':' ∉ before ∧ ':' ∉ after ∧
    name = String.ofList (trim before) ∧ phrases = (parts ',' after).map String.ofList

/-- A line can be read: if it counts, it has exactly one colon. -/
def IsLegible (raw : List Char) : Prop :=
  ∀ line, ReadAs raw line → line.count ':' = 1

/-- A line counts, and is an entry. -/
def Enters (raw : List Char) (name : String) (phrases : List String) : Prop :=
  ∃ line, ReadAs raw line ∧ IsEntry line name phrases

theorem content?_eq_some {raw line : List Char} : content? raw = some line ↔ ReadAs raw line := by
  have counts : isContent (trim raw) ↔ trim raw ≠ [] ∧ (trim raw).head? ≠ some '%' := by
    simp [isContent]
  rw [content?]
  constructor
  · intro read
    split at read
    · rename_i content
      cases read
      exact ⟨(counts.mp content).1, (counts.mp content).2, rfl⟩
    · cases read
  · rintro ⟨nonempty, uncommented, rfl⟩
    rw [if_pos (counts.mpr ⟨nonempty, uncommented⟩)]

/-! ## Entries -/

/-- The entry that a line is, if it is one. -/
def entryOf? (line : List Char) : Option (String × List String) :=
  match cut? [':'] line with
  | none => none
  | some (name, phrases) =>
      if phrases.contains ':' then none
      else some (String.ofList (trim name), (parts ',' phrases).map String.ofList)

theorem readLine_eq (number : Nat) (line : List Char) :
    readLine number line =
      match entryOf? line with
      | some entry => .ok entry
      | none => .error (.malformedLexicon number (String.ofList line)) := by
  rw [readLine, entryOf?]
  cases cut? [':'] line with
  | none => rfl
  | some divided =>
      dsimp only
      split <;> rfl

theorem entryOf?_eq_some {line : List Char} {name : String} {phrases : List String} :
    entryOf? line = some (name, phrases) ↔ IsEntry line name phrases := by
  rw [entryOf?]
  constructor
  · intro found
    split at found
    · cases found
    · rename_i before after divided
      rcases cut?_singleton.mp divided with ⟨rfl, absent⟩
      split at found
      · cases found
      · rename_i single
        cases found
        exact ⟨before, after, rfl, absent, by simpa using single, rfl, rfl⟩
  · rintro ⟨before, after, rfl, absent, single, rfl, rfl⟩
    rw [cut?_singleton.mpr ⟨rfl, absent⟩]
    exact if_neg (by simpa using single)

theorem exists_entry_iff {line : List Char} :
    (∃ name phrases, IsEntry line name phrases) ↔ line.count ':' = 1 := by
  constructor
  · rintro ⟨_, _, before, after, rfl, absent, single, _, _⟩
    rw [List.count_append, List.count_cons_self, List.count_eq_zero.mpr absent,
      List.count_eq_zero.mpr single]
  · intro once
    have member : ':' ∈ line := List.count_pos_iff.mp (by omega)
    rcases List.eq_append_cons_of_mem member with ⟨before, after, rfl, absent⟩
    rw [List.count_append, List.count_cons_self, List.count_eq_zero.mpr absent] at once
    have single : ':' ∉ after := List.count_eq_zero.mp (by omega)
    exact ⟨_, _, before, after, rfl, absent, single, rfl, rfl⟩

theorem entryOf?_eq_none {line : List Char} : entryOf? line = none ↔ line.count ':' ≠ 1 := by
  rw [Ne, ← exists_entry_iff, Option.eq_none_iff_forall_ne_some]
  constructor
  · rintro never ⟨name, phrases, entry⟩
    exact never _ (entryOf?_eq_some.mpr entry)
  · rintro never ⟨name, phrases⟩ found
    exact never ⟨name, phrases, entryOf?_eq_some.mp found⟩

/-- The entry that a line of a text makes. -/
def entryMade? (raw : List Char) : Option (String × List String) :=
  (content? raw).bind entryOf?

theorem entryMade?_eq_some {raw : List Char} {name : String} {phrases : List String} :
    entryMade? raw = some (name, phrases) ↔ Enters raw name phrases := by
  rw [entryMade?, Option.bind_eq_some_iff]
  simp only [content?_eq_some, entryOf?_eq_some, Enters]

/-! ## Entries in order -/

/-- A lexicon with some more entries, one after another. -/
def enter (lexicon : Lexicon) (entries : List (String × List String)) : Lexicon :=
  entries.foldl (fun lexicon entry => lexicon.insert entry.1 entry.2) lexicon

/-- The last entry of a name holds, and without one what held before. -/
theorem getElem?_enter (lexicon : Lexicon) (entries : List (String × List String))
    (name : String) :
    (lexicon.enter entries)[name]? = (entries.reverse.lookup name).or lexicon[name]? := by
  induction entries generalizing lexicon with
  | nil => rfl
  | cons entry rest ih =>
      rw [enter, List.foldl_cons, ← enter, ih, List.reverse_cons, List.lookup_append,
        List.lookup_cons, Option.or_assoc, Std.TreeMap.getElem?_insert]
      by_cases same : name = entry.1
      · simp [same]
      · have other : (name == entry.1) = false := by
          simpa using same
        simp [other, eq_comm (a := entry.1), same]

theorem getElem?_enter_append (first others : List (String × List String)) (name : String) :
    (enter ∅ (first ++ others))[name]? = (enter ∅ others)[name]?.or (enter ∅ first)[name]? := by
  have empty : (∅ : Lexicon)[name]? = none := by
    simp
  rw [getElem?_enter, getElem?_enter, getElem?_enter, List.reverse_append, List.lookup_append,
    empty, Option.or_none, Option.or_none, Option.or_none]

/-- Lines that count, of which the first line of all has some number. -/
def numbered (number : Nat) (raws : List (List Char)) : List (Nat × List Char) :=
  (raws.zipIdx number).filterMap fun (raw, number) =>
    if isContent (trim raw) then some (number, upper (trim raw)) else none

/-- Read lines of which the first has some number. -/
def readFrom (number : Nat) (raws : List (List Char)) (lexicon : Lexicon) :
    Except Error Lexicon :=
  (numbered number raws).foldlM addLine lexicon

theorem readFrom_cons (number : Nat) (raw : List Char) (rest : List (List Char))
    (lexicon : Lexicon) :
    readFrom number (raw :: rest) lexicon =
      match content? raw with
      | none => readFrom (number + 1) rest lexicon
      | some line =>
          match entryOf? line with
          | none => .error (.malformedLexicon number (String.ofList line))
          | some entry => readFrom (number + 1) rest (lexicon.insert entry.1 entry.2) := by
  rw [readFrom, numbered, List.zipIdx_cons, List.filterMap_cons, content?]
  by_cases content : isContent (trim raw)
  · simp only [content, if_true, List.foldlM_cons, addLine, readLine_eq]
    cases entryOf? (upper (trim raw)) <;> rfl
  · simp only [content]
    rfl

/-- What becomes of a line: it is skipped, it makes an entry, or it is refused. -/
inductive Fate (raw : List Char) : Prop where
  | skipped (skips : content? raw = none) (legible : IsLegible raw)
  | entered (entry : String × List String) (line : List Char) (read : content? raw = some line)
      (enters : entryOf? line = some entry) (legible : IsLegible raw)
  | refused (line : List Char) (read : content? raw = some line) (several : line.count ':' ≠ 1)

theorem fate (raw : List Char) : Fate raw := by
  cases read : content? raw with
  | none =>
      refine .skipped read fun line readAs => ?_
      rw [content?_eq_some.mpr readAs] at read
      cases read
  | some line =>
      by_cases once : line.count ':' = 1
      · rcases exists_entry_iff.mpr once with ⟨name, phrases, isEntry⟩
        refine .entered _ line read (entryOf?_eq_some.mpr isEntry) fun other readAs => ?_
        rw [content?_eq_some.mpr readAs] at read
        cases read
        exact once
      · exact .refused line read once

/-- Lines are read if all of them can be, and each adds the entry that it makes. -/
theorem readFrom_eq_ok {number : Nat} {raws : List (List Char)} {lexicon after : Lexicon} :
    readFrom number raws lexicon = .ok after ↔
      (∀ raw ∈ raws, IsLegible raw) ∧ after = lexicon.enter (raws.filterMap entryMade?) := by
  induction raws generalizing number lexicon with
  | nil =>
      constructor
      · intro read
        cases read
        exact ⟨by simp, rfl⟩
      · rintro ⟨_, rfl⟩
        rfl
  | cons raw rest ih =>
      rw [readFrom_cons, List.forall_mem_cons, List.filterMap_cons, entryMade?]
      rcases fate raw with ⟨skips, legible⟩ | ⟨entry, line, read, enters, legible⟩ |
        ⟨line, read, several⟩
      · simp only [skips, ih, legible, true_and, Option.bind_none]
      · simp only [read, enters, ih, legible, true_and, Option.bind_some]
        rfl
      · have illegible : ¬IsLegible raw := fun legible =>
          several (legible line (content?_eq_some.mp read))
        simp only [read, entryOf?_eq_none.mpr several, illegible, false_and, reduceCtorEq]

/-- The first of some lines that cannot be read is refused, by its number. -/
def RefusedFrom (number : Nat) (raws : List (List Char)) (cause : Error) : Prop :=
  ∃ earlier raw later line,
    raws = earlier ++ raw :: later ∧ (∀ other ∈ earlier, IsLegible other) ∧
      ReadAs raw line ∧ line.count ':' ≠ 1 ∧
      cause = .malformedLexicon (number + earlier.length) (String.ofList line)

theorem refusedFrom_cons_of_legible {number : Nat} {first : List Char} {rest : List (List Char)}
    {cause : Error} (legible : IsLegible first) :
    RefusedFrom number (first :: rest) cause ↔ RefusedFrom (number + 1) rest cause := by
  constructor
  · rintro ⟨earlier, raw, later, line, split, before, readAs, several, rfl⟩
    rcases List.cons_eq_append_iff.mp split with ⟨rfl, same⟩ | ⟨others, rfl, rfl⟩
    · cases same
      exact absurd (legible line readAs) several
    · rw [List.forall_mem_cons] at before
      refine ⟨others, raw, later, line, rfl, before.2, readAs, several, ?_⟩
      rw [List.length_cons, Nat.add_assoc, Nat.add_comm 1]
  · rintro ⟨earlier, raw, later, line, rfl, before, readAs, several, rfl⟩
    refine ⟨first :: earlier, raw, later, line, rfl,
      List.forall_mem_cons.mpr ⟨legible, before⟩, readAs, several, ?_⟩
    rw [List.length_cons, Nat.add_assoc, Nat.add_comm 1]

theorem refusedFrom_cons_of_several {number : Nat} {first line : List Char}
    {rest : List (List Char)} {cause : Error} (read : content? first = some line)
    (several : line.count ':' ≠ 1) :
    RefusedFrom number (first :: rest) cause ↔
      cause = .malformedLexicon number (String.ofList line) := by
  constructor
  · rintro ⟨earlier, raw, later, other, split, before, readAs, _, rfl⟩
    rcases List.cons_eq_append_iff.mp split with ⟨rfl, same⟩ | ⟨others, rfl, rfl⟩
    · cases same
      rw [content?_eq_some.mpr readAs] at read
      cases read
      rfl
    · rw [List.forall_mem_cons] at before
      exact absurd (before.1 line (content?_eq_some.mp read)) several
  · rintro rfl
    exact ⟨[], first, rest, line, rfl, by simp, content?_eq_some.mp read, several, rfl⟩

theorem readFrom_eq_error {number : Nat} {raws : List (List Char)} {lexicon : Lexicon}
    {cause : Error} :
    readFrom number raws lexicon = .error cause ↔ RefusedFrom number raws cause := by
  induction raws generalizing number lexicon with
  | nil =>
      constructor
      · intro read
        cases read
      · rintro ⟨earlier, raw, later, line, split, _⟩
        simp at split
  | cons raw rest ih =>
      rw [readFrom_cons]
      rcases fate raw with ⟨skips, legible⟩ | ⟨entry, line, read, enters, legible⟩ |
        ⟨line, read, several⟩
      · simp only [refusedFrom_cons_of_legible legible, skips, ih]
      · simp only [refusedFrom_cons_of_legible legible, read, enters, ih]
      · simp only [refusedFrom_cons_of_several read several, read, entryOf?_eq_none.mpr several,
          Except.error.injEq, eq_comm (a := cause)]

/-! ## Texts -/

/-- A text is read if all its lines can be. -/
theorem read_eq_ok {text : String} {lexicon : Lexicon} :
    read text = .ok lexicon ↔
      (∀ raw ∈ lines text.toList, IsLegible raw) ∧
        lexicon = enter ∅ ((lines text.toList).filterMap entryMade?) :=
  readFrom_eq_ok

theorem read_eq_error {text : String} {cause : Error} :
    read text = .error cause ↔ RefusedFrom 1 (lines text.toList) cause :=
  readFrom_eq_error

/-- The last entry of a name, found from behind. -/
theorem lookup_reverse_eq_some {entries : List (String × List String)} {name : String}
    {phrases : List String} :
    entries.reverse.lookup name = some phrases ↔
      ∃ earlier later, entries = earlier ++ (name, phrases) :: later ∧
        ∀ entry ∈ later, entry.1 ≠ name := by
  rw [List.lookup_eq_some_iff]
  constructor
  · rintro ⟨later, earlier, split, unnamed⟩
    refine ⟨earlier.reverse, later.reverse, ?_, ?_⟩
    · rw [← List.reverse_inj, split]
      simp
    · intro entry member same
      have other := unnamed entry (List.mem_reverse.mp member)
      simp [same] at other
  · rintro ⟨earlier, later, rfl, unnamed⟩
    refine ⟨later.reverse, earlier.reverse, by simp, ?_⟩
    intro entry member
    have other := unnamed entry (List.mem_reverse.mp member)
    simpa [eq_comm (a := name)] using other

/-- Names and phrases of a lexicon that was read from some lines. -/
theorem getElem?_enter_filterMap {raws : List (List Char)} {name : String}
    {phrases : List String} :
    (enter ∅ (raws.filterMap entryMade?))[name]? = some phrases ↔
      ∃ earlier raw later, raws = earlier ++ raw :: later ∧ Enters raw name phrases ∧
        ∀ other ∈ later, ∀ others, ¬Enters other name others := by
  have empty : (∅ : Lexicon)[name]? = none := by
    simp
  rw [getElem?_enter, empty, Option.or_none, lookup_reverse_eq_some]
  constructor
  · rintro ⟨earlier, later, split, unnamed⟩
    rcases List.filterMap_eq_append_iff.mp split with ⟨first, others, rfl, _, split⟩
    rcases List.filterMap_eq_cons_iff.mp split with ⟨skipped, raw, rest, rfl, _, enters, rfl⟩
    refine ⟨first ++ skipped, raw, rest, by simp, entryMade?_eq_some.mp enters, ?_⟩
    intro other member otherPhrases otherEnters
    exact unnamed _ (List.mem_filterMap.mpr ⟨other, member, entryMade?_eq_some.mpr otherEnters⟩) rfl
  · rintro ⟨earlier, raw, later, rfl, enters, unnamed⟩
    refine ⟨earlier.filterMap entryMade?, later.filterMap entryMade?, ?_, ?_⟩
    · rw [List.filterMap_append, List.filterMap_cons, entryMade?_eq_some.mpr enters]
    · rintro ⟨_, others⟩ member rfl
      rcases List.mem_filterMap.mp member with ⟨other, inLater, otherEnters⟩
      exact unnamed other inLater others (entryMade?_eq_some.mp otherEnters)

/-- A lexicon that was read from some lines has the names that these enter. -/
theorem contains_enter_filterMap {raws : List (List Char)} {name : String} :
    (enter ∅ (raws.filterMap entryMade?)).contains name ↔
      ∃ raw ∈ raws, ∃ phrases, Enters raw name phrases := by
  have empty : (∅ : Lexicon)[name]? = none := by
    simp
  rw [Std.TreeMap.contains_eq_isSome_getElem?, getElem?_enter, empty, Option.or_none,
    List.lookup_isSome_iff]
  constructor
  · rintro ⟨⟨other, phrases⟩, member, same⟩
    rcases List.mem_filterMap.mp (List.mem_reverse.mp member) with ⟨raw, inRaws, enters⟩
    cases eq_of_beq same
    exact ⟨raw, inRaws, phrases, entryMade?_eq_some.mp enters⟩
  · rintro ⟨raw, inRaws, phrases, enters⟩
    have member := List.mem_filterMap.mpr ⟨raw, inRaws, entryMade?_eq_some.mpr enters⟩
    exact ⟨(name, phrases), List.mem_reverse.mpr member, BEq.rfl⟩

/-! ## Texts put together -/

theorem forall_isLegible_iff {raws : List (List Char)} :
    (∀ raw ∈ raws, IsLegible raw) ↔ ∀ line ∈ raws.filterMap content?, line.count ':' = 1 := by
  simp only [List.mem_filterMap, content?_eq_some]
  constructor
  · rintro legible line ⟨raw, member, readAs⟩
    exact legible raw member line readAs
  · intro single raw member line readAs
    exact single line ⟨raw, member, readAs⟩

theorem filterMap_entry?_eq (raws : List (List Char)) :
    raws.filterMap entryMade? = (raws.filterMap content?).filterMap entryOf? :=
  List.filterMap_filterMap.symm

/-- A text behind another overrides it name by name. -/
theorem read_append {text others : String} {first second : Lexicon}
    (firstRead : read text = .ok first) (secondRead : read others = .ok second) :
    ∃ whole, read (text ++ "\n" ++ others) = .ok whole ∧
      ∀ name : String, whole[name]? = second[name]?.or first[name]? := by
  rcases read_eq_ok.mp firstRead with ⟨legible, rfl⟩
  rcases read_eq_ok.mp secondRead with ⟨othersLegible, rfl⟩
  rw [forall_isLegible_iff] at legible othersLegible
  refine ⟨_, read_eq_ok.mpr ⟨?_, rfl⟩, ?_⟩
  · rw [forall_isLegible_iff, toList_joined, filterMap_content?_append, List.forall_mem_append]
    exact ⟨legible, othersLegible⟩
  · intro name
    rw [filterMap_entry?_eq, toList_joined, filterMap_content?_append, List.filterMap_append,
      ← filterMap_entry?_eq, ← filterMap_entry?_eq, getElem?_enter_append]

/--
A lexicon text is read exactly if every line that counts has one colon; otherwise
the first that has not is refused, by its number among all lines.  The lexicon has
a name if some line enters it, and then the phrases of the last line that does.
So a text behind another overrides it name by name.
-/
theorem read_takes_last_entries (text : String) :
    ((∃ lexicon, read text = .ok lexicon) ↔ ∀ raw ∈ lines text.toList, IsLegible raw) ∧
      (∀ cause, read text = .error cause ↔
        ∃ earlier raw later line,
          lines text.toList = earlier ++ raw :: later ∧
            (∀ other ∈ earlier, IsLegible other) ∧
            ReadAs raw line ∧ line.count ':' ≠ 1 ∧
            cause = .malformedLexicon (earlier.length + 1) (String.ofList line)) ∧
      (∀ lexicon, read text = .ok lexicon → ∀ name : String,
        (lexicon.contains name ↔
          ∃ raw ∈ lines text.toList, ∃ phrases, Enters raw name phrases) ∧
        ∀ phrases, lexicon[name]? = some phrases ↔
          ∃ earlier raw later, lines text.toList = earlier ++ raw :: later ∧
            Enters raw name phrases ∧
            ∀ other ∈ later, ∀ others, ¬Enters other name others) ∧
      ∀ others first second, read text = .ok first → read others = .ok second →
        ∃ whole, read (text ++ "\n" ++ others) = .ok whole ∧
          ∀ name : String, whole[name]? = second[name]?.or first[name]? := by
  refine ⟨?_, ?_, ?_, ?_⟩
  · constructor
    · rintro ⟨lexicon, read⟩
      exact (read_eq_ok.mp read).1
    · intro legible
      exact ⟨_, read_eq_ok.mpr ⟨legible, rfl⟩⟩
  · intro cause
    rw [read_eq_error, RefusedFrom]
    simp only [Nat.add_comm 1]
  · intro lexicon read name
    rcases read_eq_ok.mp read with ⟨_, rfl⟩
    exact ⟨contains_enter_filterMap, fun phrases => getElem?_enter_filterMap⟩
  · intro others first second firstRead secondRead
    exact read_append firstRead secondRead

/-- A text with a comment, an empty line, a name that comes twice, and one without phrases. -/
def familyLexicon : String :=
  "% Nouns\r\nGeorge: George, the professor\r\n\nasleep:\nlikes: likes, , admires\ngeorge : Geo\r"

/-- A text with names that the other has and with one of its own. -/
def guestLexicon : String :=
  "likes: adores\nnick: Nick"

/-- The last line for a name holds, within a text and in a text behind another. -/
theorem read_takes_last_entries_of_guests :
    ∃ first second whole,
      read familyLexicon = .ok first ∧ read guestLexicon = .ok second ∧
        read (familyLexicon ++ "\n" ++ guestLexicon) = .ok whole ∧
        first["GEORGE"]? = some ["GEO"] ∧ first.contains "ASLEEP" ∧
        whole["GEORGE"]? = some ["GEO"] ∧ whole["LIKES"]? = some ["ADORES"] := by
  have readFirst :
      (read familyLexicon).map (fun lexicon =>
        (lexicon["GEORGE"]?, lexicon["LIKES"]?, lexicon.contains "ASLEEP")) =
      .ok (some ["GEO"], some ["LIKES", "ADMIRES"], true) := by
    decide +kernel
  have readSecond :
      (read guestLexicon).map (fun lexicon => (lexicon["GEORGE"]?, lexicon["LIKES"]?)) =
        .ok (none, some ["ADORES"]) := by
    decide +kernel
  rcases map_eq_ok.mp readFirst with ⟨first, firstRead, found⟩
  rcases map_eq_ok.mp readSecond with ⟨second, secondRead, foundSecond⟩
  simp only [Prod.mk.injEq] at found foundSecond
  rcases (read_takes_last_entries familyLexicon).2.2.2 guestLexicon first second firstRead
    secondRead with ⟨whole, wholeRead, overrides⟩
  refine ⟨first, second, whole, firstRead, secondRead, wholeRead, found.1, found.2.2, ?_, ?_⟩
  · rw [overrides, foundSecond.1, found.1]
    rfl
  · rw [overrides, foundSecond.2]
    rfl

end Fabula.Lexicon
