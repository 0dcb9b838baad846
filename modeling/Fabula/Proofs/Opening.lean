import Fabula.Proofs.Change
import Fabula.Proofs.Lines

/-!
# Loading line by line

A text of opening conditions is loaded line by line, and a line of facts clause
by clause.  What a line that can be read makes of a world does not depend on
its number; a line that cannot be read is named by its number, and leaves the
clauses before the one at fault.  Hence a text that is loaded behind another is
loaded as if it stood alone in the world that the other leaves.
-/

namespace Fabula

open Outcome Text

namespace World

/-! ## Lines -/

/-- What a line is about, and what it says of it. -/
inductive Heading where
  | silent
  | untabbed
  | ofClass (name body : List Char)
  | ofFacts (subject body : List Char)

/-- What a line is about. -/
def heading (raw : List Char) : Heading :=
  if isSilent raw then
    .silent
  else
    match cut? ['\t'] (upper raw) with
    | none => .untabbed
    | some (head, body) =>
        match classMark.isPrefixOf? (trim head) with
        | some className => .ofClass (trim className) body
        | none => .ofFacts (trim head) body

/-- The key of the fact that a clause asserts of a subject: a relation, and perhaps an object. -/
def clauseKey? (subject clause : List Char) : Option Fact.Key :=
  match words clause with
  | [relation] => some ⟨String.ofList subject, String.ofList relation, none⟩
  | [relation, object] =>
      some ⟨String.ofList subject, String.ofList relation, some (String.ofList object)⟩
  | _ => none

/-- Assert facts one after another. -/
def assertFacts (world : World) (keys : List Fact.Key) : World :=
  keys.foldl assertFact world

/-- What a line that can be read makes of a world. -/
inductive Enters (world : World) : Heading → World → Prop where
  | silent : Enters world .silent world
  | ofClass {name body : List Char} {nouns : List String} (named : name ≠ [])
      (resolved : world.resolveMembers (parts ',' body) = .ok nouns) :
      Enters world (.ofClass name body) (world.defineClass (String.ofList name) nouns)
  | ofFacts {subject body : List Char} {keys : List Fact.Key} (named : subject ≠ [])
      (read : (body.splitOn ',').map (clauseKey? subject) = keys.map some) :
      Enters world (.ofFacts subject body) (world.assertFacts keys)

/-- What lines that can be read make of a world, one after another. -/
inductive EntersAll : World → List (List Char) → World → Prop where
  | nil {world : World} : EntersAll world [] world
  | cons {raw : List Char} {rest : List (List Char)} {world middle after : World}
      (enters : Enters world (heading raw) middle) (others : EntersAll middle rest after) :
      EntersAll world (raw :: rest) after

/-- The error for a clause at fault: it is blank, or too long. -/
def clauseError (number : Nat) (body clause : List Char) : Error :=
  if words clause = [] then
    .malformedOpening number .noRelation (String.ofList body)
  else
    .malformedOpening number .clauseShape (String.ofList (trim clause))

/-- How a line with some number is refused, and the world that it leaves. -/
inductive Refuses (world : World) (number : Nat) (raw : List Char) :
    Heading → Error → World → Prop where
  | untabbed :
      Refuses world number raw .untabbed
        (.malformedOpening number .noTab (String.ofList raw)) world
  | noClassName {body : List Char} :
      Refuses world number raw (.ofClass [] body)
        (.malformedOpening number .noClassName (String.ofList body)) world
  | unknownClass {name body : List Char} {missing : String} (named : name ≠ [])
      (refused : world.resolveMembers (parts ',' body) = .error (.unknownClass missing)) :
      Refuses world number raw (.ofClass name body) (.unknownClass missing) world
  | noSubject {body : List Char} :
      Refuses world number raw (.ofFacts [] body)
        (.malformedOpening number .noSubject (String.ofList body)) world
  | clause {subject body clause : List Char} {before rest : List (List Char)}
      {keys : List Fact.Key} (named : subject ≠ [])
      (split : body.splitOn ',' = before ++ clause :: rest)
      (read : before.map (clauseKey? subject) = keys.map some)
      (unread : clauseKey? subject clause = none) :
      Refuses world number raw (.ofFacts subject body) (clauseError number body clause)
        (world.assertFacts keys)

/-! ## Clauses -/

theorem loadClause_eq (number : Nat) (subject body clause : List Char) (world : World) :
    loadClause number subject body clause world =
      match clauseKey? subject clause with
      | some key => .ok () (world.assertFact key)
      | none => .error (clauseError number body clause) world := by
  rw [loadClause, clauseKey?, clauseError]
  rcases words clause with _ | ⟨relation, _ | ⟨object, _ | ⟨_, _⟩⟩⟩
  all_goals rfl

/-- Clauses that can be read assert their facts in order. -/
theorem loadClauses_eq_ok {number : Nat} {subject body : List Char} {clauses : List (List Char)}
    {world after : World} :
    clauses.forM (loadClause number subject body) world = .ok () after ↔
      ∃ keys : List Fact.Key, clauses.map (clauseKey? subject) = keys.map some ∧
        after = world.assertFacts keys := by
  induction clauses generalizing world with
  | nil =>
      constructor
      · intro loaded
        cases loaded
        exact ⟨[], rfl, rfl⟩
      · rintro ⟨keys, none, rfl⟩
        rw [List.map_nil, eq_comm, List.map_eq_nil_iff] at none
        rw [none]
        rfl
  | cons clause rest ih =>
      refine run_bind_eq_ok.trans ?_
      rw [loadClause_eq, List.map_cons]
      cases clauseKey? subject clause with
      | none =>
          constructor
          · rintro ⟨_, _, loaded, _⟩
            cases loaded
          · rintro ⟨keys, read, _⟩
            cases keys <;> cases read
      | some key =>
          constructor
          · rintro ⟨_, middle, loaded, restLoaded⟩
            cases loaded
            rcases ih.mp restLoaded with ⟨keys, read, rfl⟩
            exact ⟨key :: keys, by rw [read, List.map_cons], rfl⟩
          · rintro ⟨keys, read, rfl⟩
            cases keys with
            | nil => cases read
            | cons first keys =>
                rw [List.map_cons, List.cons.injEq] at read
                cases read.1
                exact ⟨(), world.assertFact key, rfl, ih.mpr ⟨keys, read.2, rfl⟩⟩

/-- Clauses are refused at the first that cannot be read, and leave the facts before it. -/
theorem loadClauses_eq_error {number : Nat} {subject body : List Char}
    {clauses : List (List Char)} {world after : World} {cause : Error} :
    clauses.forM (loadClause number subject body) world = .error cause after ↔
      ∃ before clause rest, ∃ keys : List Fact.Key,
        clauses = before ++ clause :: rest ∧
          before.map (clauseKey? subject) = keys.map some ∧
          clauseKey? subject clause = none ∧
          cause = clauseError number body clause ∧ after = world.assertFacts keys := by
  rw [run_forM_eq_error]
  constructor
  · rintro ⟨before, clause, rest, middle, split, loaded, refused⟩
    rcases loadClauses_eq_ok.mp loaded with ⟨keys, read, rfl⟩
    rw [loadClause_eq] at refused
    split at refused
    · cases refused
    · rename_i unread
      cases refused
      exact ⟨before, clause, rest, keys, split, read, unread, rfl, rfl⟩
  · rintro ⟨before, clause, rest, keys, split, read, unread, rfl, rfl⟩
    refine ⟨before, clause, rest, _, split, loadClauses_eq_ok.mpr ⟨keys, read, rfl⟩, ?_⟩
    rw [loadClause_eq, unread]

/-! ## Single lines -/

theorem resolveMembers_eq_error {world : World} {members : List (List Char)} {cause : Error}
    (refused : world.resolveMembers members = .error cause) :
    ∃ missing, cause = .unknownClass missing := by
  rcases bind_eq_error.mp refused with visited | ⟨_, _, returned⟩
  · rcases exists_of_mapM_eq_error visited with ⟨member, _, unresolved⟩
    rw [resolveMember] at unresolved
    split at unresolved
    · rw [World.members] at unresolved
      split at unresolved
      · cases unresolved
      · cases unresolved
        exact ⟨_, rfl⟩
    · cases unresolved
  · cases returned

theorem loadLine_eq (number : Nat) (raw : List Char) :
    loadLine number raw =
      match heading raw with
      | .silent => pure ()
      | .untabbed => throw (.malformedOpening number .noTab (String.ofList raw))
      | .ofClass name body => loadClass number name body
      | .ofFacts subject body => loadFacts number subject body := by
  rw [loadLine, heading]
  split
  · rfl
  · cases cut? ['\t'] (upper raw) with
    | none => rfl
    | some divided =>
        rcases divided with ⟨head, body⟩
        dsimp only
        cases classMark.isPrefixOf? (trim head) <;> rfl

theorem loadClass_eq_ok {number : Nat} {name body : List Char} {world after : World} :
    loadClass number name body world = .ok () after ↔
      Enters world (.ofClass name body) after := by
  rw [loadClass]
  constructor
  · intro loaded
    split at loaded
    · cases loaded
    · rename_i named
      split at loaded
      · rename_i nouns resolved
        cases loaded
        exact .ofClass (by simpa using named) resolved
      · cases loaded
  · intro enters
    cases enters with
    | ofClass named resolved => rw [if_neg (by simpa using named), resolved]

theorem loadClass_eq_error {number : Nat} {name body raw : List Char} {world after : World}
    {cause : Error} :
    loadClass number name body world = .error cause after ↔
      Refuses world number raw (.ofClass name body) cause after := by
  rw [loadClass]
  constructor
  · intro refused
    split at refused
    · rename_i unnamed
      rw [List.isEmpty_iff.mp unnamed]
      cases refused
      exact .noClassName
    · rename_i named
      split at refused
      · cases refused
      · rename_i unresolved
        cases refused
        rcases resolveMembers_eq_error unresolved with ⟨missing, rfl⟩
        exact .unknownClass (by simpa using named) unresolved
  · intro refuses
    cases refuses with
    | noClassName => rfl
    | unknownClass named refused => rw [if_neg (by simpa using named), refused]

theorem loadFacts_eq_ok {number : Nat} {subject body : List Char} {world after : World} :
    loadFacts number subject body world = .ok () after ↔
      Enters world (.ofFacts subject body) after := by
  rw [loadFacts]
  constructor
  · intro loaded
    split at loaded
    · cases loaded
    · rename_i named
      rcases loadClauses_eq_ok.mp loaded with ⟨keys, read, rfl⟩
      exact .ofFacts (by simpa using named) read
  · intro enters
    cases enters with
    | ofFacts named read =>
        rw [if_neg (by simpa using named)]
        exact loadClauses_eq_ok.mpr ⟨_, read, rfl⟩

theorem loadFacts_eq_error {number : Nat} {subject body raw : List Char} {world after : World}
    {cause : Error} :
    loadFacts number subject body world = .error cause after ↔
      Refuses world number raw (.ofFacts subject body) cause after := by
  rw [loadFacts]
  constructor
  · intro refused
    split at refused
    · rename_i unnamed
      rw [List.isEmpty_iff.mp unnamed]
      cases refused
      exact .noSubject
    · rename_i named
      rcases loadClauses_eq_error.mp refused with
        ⟨before, clause, rest, keys, split, read, unread, rfl, rfl⟩
      exact .clause (by simpa using named) split read unread
  · intro refuses
    cases refuses with
    | noSubject => rfl
    | clause named split read unread =>
        rw [if_neg (by simpa using named)]
        exact loadClauses_eq_error.mpr ⟨_, _, _, _, split, read, unread, rfl, rfl⟩

theorem loadLine_eq_ok {number : Nat} {raw : List Char} {world after : World} :
    loadLine number raw world = .ok () after ↔ Enters world (heading raw) after := by
  rw [loadLine_eq]
  cases heading raw with
  | silent =>
      constructor
      · intro loaded
        cases loaded
        exact .silent
      · intro enters
        cases enters
        rfl
  | untabbed => exact ⟨nofun, nofun⟩
  | ofClass name body => exact loadClass_eq_ok
  | ofFacts subject body => exact loadFacts_eq_ok

theorem loadLine_eq_error {number : Nat} {raw : List Char} {world after : World} {cause : Error} :
    loadLine number raw world = .error cause after ↔
      Refuses world number raw (heading raw) cause after := by
  rw [loadLine_eq]
  cases heading raw with
  | silent => exact ⟨nofun, nofun⟩
  | untabbed =>
      constructor
      · intro refused
        cases refused
        exact .untabbed
      · intro refuses
        cases refuses
        rfl
  | ofClass name body => exact loadClass_eq_error
  | ofFacts subject body => exact loadFacts_eq_error

/-! ## Lines in order -/

/-- Load lines of which the first has some number. -/
def loadLines (number : Nat) (raws : List (List Char)) : EStateM Error World Unit :=
  (raws.zipIdx number).forM fun (raw, line) => loadLine line raw

theorem loadLines_append (number : Nat) (first others : List (List Char)) :
    loadLines number (first ++ others) =
      loadLines number first >>= fun _ => loadLines (number + first.length) others := by
  rw [loadLines, List.zipIdx_append]
  exact List.forM_append

theorem loadLines_eq_ok {number : Nat} {raws : List (List Char)} {world after : World} :
    loadLines number raws world = .ok () after ↔ EntersAll world raws after := by
  induction raws generalizing number world with
  | nil =>
      constructor
      · intro loaded
        cases loaded
        exact .nil
      · intro enters
        cases enters
        rfl
  | cons raw rest ih =>
      refine run_bind_eq_ok.trans ?_
      constructor
      · rintro ⟨_, middle, loaded, restLoaded⟩
        exact .cons (loadLine_eq_ok.mp loaded) (ih.mp restLoaded)
      · intro enters
        cases enters with
        | cons enters others => exact ⟨(), _, loadLine_eq_ok.mpr enters, ih.mpr others⟩

/-- Lines are refused at the first that cannot be read, in the world that those before it make. -/
theorem loadLines_eq_error {number : Nat} {raws : List (List Char)} {world after : World}
    {cause : Error} :
    loadLines number raws world = .error cause after ↔
      ∃ earlier raw later middle,
        raws = earlier ++ raw :: later ∧
          EntersAll world earlier middle ∧
          Refuses middle (number + earlier.length) raw (heading raw) cause after := by
  constructor
  · intro refused
    rcases run_forM_eq_error.mp refused with
      ⟨numbered, ⟨raw, line⟩, later, middle, split, loaded, failed⟩
    have lines : raws = numbered.map Prod.fst ++ raw :: later.map Prod.fst := by
      rw [← List.zipIdx_map_fst number raws, split, List.map_append, List.map_cons]
    have apart := split
    rw [lines, List.zipIdx_append, List.zipIdx_cons] at apart
    rcases List.append_inj apart (by simp) with ⟨same, rest⟩
    have counted : number + (numbered.map Prod.fst).length = line :=
      congrArg Prod.snd (List.cons.inj rest).1
    refine ⟨numbered.map Prod.fst, raw, later.map Prod.fst, middle, lines, ?_, ?_⟩
    · apply loadLines_eq_ok.mp
      rw [loadLines, same]
      exact loaded
    · rw [counted]
      exact loadLine_eq_error.mp failed
  · rintro ⟨earlier, raw, later, middle, rfl, enters, refuses⟩
    rw [loadLines_append]
    refine run_bind_eq_error.mpr (.inr ⟨(), middle, loadLines_eq_ok.mpr enters, ?_⟩)
    exact run_bind_eq_error.mpr (.inl (loadLine_eq_error.mpr refuses))

/-- A text is loaded if all its lines are entered. -/
theorem load_eq_ok {text : String} {world after : World} :
    load text world = .ok () after ↔ EntersAll world (lines text.toList) after :=
  loadLines_eq_ok

/-- A text is refused at the first line that is. -/
theorem load_eq_error {text : String} {world after : World} {cause : Error} :
    load text world = .error cause after ↔
      ∃ earlier raw later middle,
        lines text.toList = earlier ++ raw :: later ∧
          EntersAll world earlier middle ∧
          Refuses middle (earlier.length + 1) raw (heading raw) cause after := by
  refine loadLines_eq_error.trans ?_
  simp only [Nat.add_comm 1]

/-! ## The seam between two texts -/

/-- A line with a carriage return behind it is about the same, and says as much. -/
theorem heading_append_return (line : List Char) :
    heading (line ++ ['\r']) =
      match heading line with
      | .silent => .silent
      | .untabbed => .untabbed
      | .ofClass name body => .ofClass name (body ++ ['\r'])
      | .ofFacts subject body => .ofFacts subject (body ++ ['\r']) := by
  have blank : isBlank '\r' := by decide
  have silence : isSilent (line ++ ['\r']) = isSilent line := by
    rw [isSilent, isSilent, trim_append_blank blank, trimStart_append_blank blank]
    cases trimStart line <;> rfl
  have capitals : upper (line ++ ['\r']) = upper line ++ ['\r'] := by
    rw [upper, upper, List.flatMap_append]
    rfl
  rw [heading, heading, silence, capitals, cut?_append (by decide)]
  split
  · rfl
  · cases cut? ['\t'] (upper line) with
    | none => rfl
    | some divided =>
        rcases divided with ⟨head, body⟩
        simp only [Option.map_some]
        cases classMark.isPrefixOf? (trim head) <;> rfl

theorem clauseKey?_append_return (subject clause : List Char) :
    clauseKey? subject (clause ++ ['\r']) = clauseKey? subject clause := by
  have blank : isBlank '\r' := by decide
  rw [clauseKey?, clauseKey?, words_append_blank blank, words_nil, List.append_nil]

theorem enters_of_append_return {world after : World} {line : List Char}
    (enters : Enters world (heading (line ++ ['\r'])) after) :
    Enters world (heading line) after := by
  rw [heading_append_return] at enters
  cases headed : heading line with
  | silent =>
      rw [headed] at enters
      exact enters
  | untabbed =>
      rw [headed] at enters
      exact enters
  | ofClass name body =>
      rw [headed] at enters
      cases enters with
      | ofClass named resolved =>
          rw [parts_append_blank (by decide) (by decide)] at resolved
          exact .ofClass named resolved
  | ofFacts subject body =>
      rw [headed] at enters
      cases enters with
      | ofFacts named read =>
          rw [map_splitOn_append (by decide) (clauseKey?_append_return subject)] at read
          exact .ofFacts named read

theorem enters_dropReturn {world after : World} {raw : List Char}
    (enters : Enters world (heading raw) after) :
    Enters world (heading (dropReturn raw)) after := by
  rcases dropReturn_cases raw with same | ended
  · rw [same]
    exact enters
  · apply enters_of_append_return
    rw [← ended]
    exact enters

theorem EntersAll.append {world middle after : World} {first others : List (List Char)}
    (enters : EntersAll world first middle) (continues : EntersAll middle others after) :
    EntersAll world (first ++ others) after := by
  induction enters with
  | nil => exact continues
  | cons enters _ ih => exact .cons enters (ih continues)

theorem exists_of_entersAll_append {world after : World} {first others : List (List Char)}
    (enters : EntersAll world (first ++ others) after) :
    ∃ middle, EntersAll world first middle ∧ EntersAll middle others after := by
  induction first generalizing world with
  | nil => exact ⟨world, .nil, enters⟩
  | cons raw rest ih =>
      cases enters with
      | cons enters continues =>
          rcases ih continues with ⟨middle, restEnters, others⟩
          exact ⟨middle, .cons enters restEnters, others⟩

/-- What the lines of a text make of a world, they make with a line feed behind them. -/
theorem EntersAll.closed {world after : World} {text : List Char}
    (enters : EntersAll world (lines text) after) :
    EntersAll world (lines (text ++ ['\n'])) after := by
  rcases exists_last_line text with ⟨before, last, unclosed, closed⟩
  rw [unclosed] at enters
  rw [closed]
  rcases exists_of_entersAll_append enters with ⟨middle, entersBefore, entersLast⟩
  apply entersBefore.append
  cases last with
  | nil =>
      cases entersLast
      exact .cons .silent .nil
  | cons c rest =>
      cases entersLast with
      | cons entersLast none =>
          cases none
          exact .cons (enters_dropReturn entersLast) .nil

end World

/-- An error in a text behind which some lines come. -/
def Error.later (count : Nat) : Error → Error
  | .malformedOpening line flaw content => .malformedOpening (line + count) flaw content
  | cause => cause

namespace World

theorem later_clauseError (number count : Nat) (body clause : List Char) :
    (clauseError number body clause).later count = clauseError (number + count) body clause := by
  rw [clauseError, clauseError]
  split <;> rfl

theorem Refuses.later {world after : World} {number : Nat} {raw : List Char} {head : Heading}
    {cause : Error} (refuses : Refuses world number raw head cause after) (count : Nat) :
    Refuses world (number + count) raw head (cause.later count) after := by
  cases refuses with
  | untabbed => exact .untabbed
  | noClassName => exact .noClassName
  | unknownClass named refused => exact .unknownClass named refused
  | noSubject => exact .noSubject
  | clause named split read unread =>
      rw [later_clauseError]
      exact .clause named split read unread

/-- Lines with greater numbers are loaded alike, and refused with the greater number. -/
theorem loadLines_later (number count : Nat) (raws : List (List Char)) (world : World) :
    loadLines (number + count) raws world =
      (loadLines number raws).adaptExcept (Error.later count) world := by
  rw [EStateM.adaptExcept]
  cases loaded : loadLines number raws world with
  | ok _ after => exact loadLines_eq_ok.mpr (loadLines_eq_ok.mp loaded)
  | error cause after =>
      rcases loadLines_eq_error.mp loaded with
        ⟨earlier, raw, later, middle, split, enters, refuses⟩
      apply loadLines_eq_error.mpr
      refine ⟨earlier, raw, later, middle, split, enters, ?_⟩
      rw [Nat.add_right_comm]
      exact refuses.later count

/-- A text behind another is loaded as if it stood alone in the world that the other leaves. -/
theorem load_append {first others : String} {world middle : World}
    (loaded : load first world = .ok () middle) :
    load (first ++ "\n" ++ others) world =
      (load others).adaptExcept (Error.later (first.toList.count '\n' + 1)) middle := by
  have joined :
      lines (first ++ "\n" ++ others).toList =
        lines (first.toList ++ ['\n']) ++ lines others.toList := by
    rw [← lines_append]
    simp [String.toList_append]
  have closed : loadLines 1 (lines (first.toList ++ ['\n'])) world = .ok () middle :=
    loadLines_eq_ok.mpr (load_eq_ok.mp loaded).closed
  show loadLines 1 (lines (first ++ "\n" ++ others).toList) world = _
  rw [joined, loadLines_append, length_lines_closed]
  show EStateM.bind _ _ world = _
  rw [EStateM.bind, closed]
  exact loadLines_later 1 _ _ middle

/-! ## Texts -/

theorem load_frame (text : String) (world : World) :
    (endState (load text world)).clock = world.clock ∧
      (endState (load text world)).pending = world.pending ∧
      (endState (load text world)).chronicle = world.chronicle := by
  rw [(load_follows text world).changed]
  refine @change_preserves (fun after => after.clock = world.clock ∧
    after.pending = world.pending ∧ after.chronicle = world.chronicle) _ ?_ _ ⟨rfl, rfl, rfl⟩
  intro change member middle kept
  rcases mem_loadProgress member with ⟨name, nouns, rfl⟩ | ⟨key, rfl⟩
  · exact kept
  · exact kept

/--
Loading goes line by line.  A text behind one that is loaded is loaded as if it
stood alone in the world that the first leaves, except that its lines have later
numbers in errors.  A text is loaded if its lines are entered one after another;
otherwise it is refused at the first line that cannot be read, in the world that
the lines before it make.  Time, waiting effects and the chronicle stay as they are.
-/
theorem loading_is_sequential (world : World) (text : String) :
    (∀ middle others, load text world = .ok () middle →
        load (text ++ "\n" ++ others) world =
          (load others).adaptExcept (Error.later (text.toList.count '\n' + 1)) middle) ∧
      (∀ after, load text world = .ok () after ↔ EntersAll world (lines text.toList) after) ∧
      (∀ cause after,
        load text world = .error cause after ↔
          ∃ earlier raw later middle,
            lines text.toList = earlier ++ raw :: later ∧
              EntersAll world earlier middle ∧
              Refuses middle (earlier.length + 1) raw (heading raw) cause after) ∧
      (endState (load text world)).clock = world.clock ∧
      (endState (load text world)).pending = world.pending ∧
      (endState (load text world)).chronicle = world.chronicle := by
  refine ⟨?_, ?_, ?_, load_frame text world⟩
  · intro middle others loaded
    exact load_append loaded
  · intro after
    exact load_eq_ok
  · intro cause after
    exact load_eq_error

/-- A text whose last line ends with a carriage return. -/
def castText : String :=
  "CLASS.PEOPLE\tGEORGE, MARTHA\r\n\n% The cast\nGEORGE\tLIKES MARTHA\r"

/-- A text with a clause at fault in its second line. -/
def sceneText : String :=
  "CLASS.ALL\tCLASS.PEOPLE, DOG\nMARTHA\tTIRED, EATS A B, ASLEEP\nDOG\tASLEEP"

theorem loading_is_sequential_of_scene :
    ∃ first middle after,
      World.start 1700 = .ok first ∧ load castText first = .ok () middle ∧
        load sceneText middle = .error (.malformedOpening 2 .clauseShape "EATS A B") after ∧
        load (castText ++ "\n" ++ sceneText) first =
          .error (.malformedOpening 6 .clauseShape "EATS A B") after ∧
        (after.get? ⟨"MARTHA", "TIRED", none⟩).isSome ∧
        after.get? ⟨"MARTHA", "ASLEEP", none⟩ = none := by
  obtain ⟨first, started⟩ : ∃ first, World.start 1700 = .ok first :=
    exists_of_isOk (by decide)
  obtain ⟨done, middle, loaded⟩ : ∃ done middle, load castText first = .ok done middle := by
    cases started
    exact exists_of_succeeded (by decide +kernel)
  have failed :
      failure? (load sceneText (endState (load castText first))) =
        some (.malformedOpening 2 .clauseShape "EATS A B") := by
    cases started
    decide +kernel
  have left :
      ((endState (load sceneText (endState (load castText first)))).get?
          ⟨"MARTHA", "TIRED", none⟩).isSome ∧
        (endState (load sceneText (endState (load castText first)))).get?
          ⟨"MARTHA", "ASLEEP", none⟩ = none := by
    cases started
    decide +kernel
  have reached : endState (load castText first) = middle := by
    rw [loaded]
    rfl
  rw [reached] at failed left
  have refused := eq_error_of_failure? failed
  have sequential := (loading_is_sequential first castText).1 middle sceneText loaded
  rw [EStateM.adaptExcept, refused] at sequential
  exact ⟨first, middle, _, started, loaded, refused, sequential, left.1, left.2⟩

end World

end Fabula
