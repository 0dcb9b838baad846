import Fabula.Proofs.Words
import Fabula.Script.Token

/-!
# Scanning inverts writing

Tokens may be written with blanks around them and around the text of a group;
only between two bare texts a blank is needed.  A text that is written in this
way is scanned as the tokens it was written for.  Every other text consists of
such a text and the beginning of a group that is not closed, and is not scanned
at all.
-/

namespace Fabula.Script

open Text

/-! ## Writing tokens -/

/-- The brackets, parentheses and quotes of the two kinds of groups. -/
inductive Delimits : GroupKind → Char → Char → Prop where
  | brackets : Delimits .time '[' ']'
  | parentheses : Delimits .relational '(' ')'
  | quotes : Delimits .relational '"' '"'

/-- A character that may stand in bare text: it is not blank, and no token begins with it. -/
def IsPlain (c : Char) : Prop :=
  isBlank c = false ∧ c ∉ ['&', '/', '[', '(', '"']

/-- A text writes a single token.  Blanks may stand inside the delimiters of a group. -/
inductive WritesToken : Token → List Char → Prop where
  | connective (connective : Connective) :
      WritesToken (.connective connective) [connective.symbol]
  | group {kind : GroupKind} {opening closing : Char} (delimits : Delimits kind opening closing)
      {before body after : List Char} (blankBefore : ∀ c ∈ before, isBlank c)
      (trimmed : trim body = body) (unclosed : closing ∉ body)
      (blankAfter : ∀ c ∈ after, isBlank c) :
      WritesToken (.group kind body) (opening :: (before ++ body ++ after ++ [closing]))
  | bare {text : List Char} (nonempty : text ≠ []) (plain : ∀ c ∈ text, IsPlain c) :
      WritesToken (.bare text) text

/--
A text writes tokens, one after another.  Blanks may stand before, between and
behind them, and one has to stand between two bare texts.
-/
inductive Writes : List Token → List Char → Prop where
  | nil {gap : List Char} (blank : ∀ c ∈ gap, isBlank c) : Writes [] gap
  | cons {token : Token} {rest : List Token} {gap piece text : List Char}
      (blank : ∀ c ∈ gap, isBlank c) (first : WritesToken token piece)
      (apart : ∀ word other, token = .bare word → rest.head? = some (.bare other) →
        ∃ c ∈ text.head?, isBlank c)
      (others : Writes rest text) : Writes (token :: rest) (gap ++ (piece ++ text))

/-- A text opens a group and does not close it. -/
def IsOpen (opening : Char) (text : List Char) : Prop :=
  ∃ kind closing inside, Delimits kind opening closing ∧ closing ∉ inside ∧
    text = opening :: inside

/-- Behind tokens that are written, a group is opened and not closed. -/
def LeavesOpen (opening : Char) (text : List Char) : Prop :=
  ∃ tokens written rest, Writes tokens written ∧ IsOpen opening rest ∧ text = written ++ rest

/-! ## Characters -/

theorem connectiveOf?_symbol (connective : Connective) :
    connectiveOf? connective.symbol = some connective := by
  cases connective <;> rfl

theorem connectiveOf?_eq_none {c : Char} (notAnd : c ≠ '&') (notOr : c ≠ '/') :
    connectiveOf? c = none := by
  unfold connectiveOf?
  split
  · exact absurd rfl notAnd
  · exact absurd rfl notOr
  · rfl

theorem groupOf?_eq_none {c : Char} (notBracket : c ≠ '[') (notParenthesis : c ≠ '(')
    (notQuote : c ≠ '"') : groupOf? c = none := by
  unfold groupOf?
  split
  · exact absurd rfl notBracket
  · exact absurd rfl notParenthesis
  · exact absurd rfl notQuote
  · rfl

/-- A character that is none of the symbols begins neither a connective nor a group. -/
theorem begins_none {c : Char} (noSymbol : c ∉ ['&', '/', '[', '(', '"']) :
    connectiveOf? c = none ∧ groupOf? c = none := by
  simp only [List.mem_cons, List.not_mem_nil, or_false, not_or] at noSymbol
  rcases noSymbol with ⟨notAnd, notOr, notBracket, notParenthesis, notQuote⟩
  exact ⟨connectiveOf?_eq_none notAnd notOr, groupOf?_eq_none notBracket notParenthesis notQuote⟩

theorem begins_none_of_isBlank {c : Char} (blank : isBlank c) :
    connectiveOf? c = none ∧ groupOf? c = none := by
  have visible : ∀ symbol ∈ ['&', '/', '[', '(', '"'], isBlank symbol = false := by
    decide
  refine begins_none fun member => ?_
  simp [visible c member] at blank

theorem IsPlain.endsBare {c : Char} (plain : IsPlain c) : endsBare c = false := by
  simp [Script.endsBare, plain.1, begins_none plain.2]

theorem endsBare_of_isBlank {c : Char} (blank : isBlank c) : endsBare c := by
  simp [endsBare, blank]

theorem endsBare_symbol (connective : Connective) : endsBare connective.symbol := by
  cases connective <;> rfl

theorem Delimits.endsBare {kind : GroupKind} {opening closing : Char}
    (delimits : Delimits kind opening closing) : endsBare opening := by
  cases delimits <;> rfl

theorem Delimits.not_isBlank {kind : GroupKind} {opening closing : Char}
    (delimits : Delimits kind opening closing) : isBlank closing = false := by
  cases delimits <;> rfl

/-- Every character is blank or plain unless a connective or a group begins with it. -/
theorem character_cases (c : Char) :
    isBlank c ∨ (∃ connective : Connective, c = connective.symbol) ∨
      (∃ kind closing, Delimits kind c closing) ∨ IsPlain c := by
  by_cases blank : isBlank c
  · exact .inl blank
  · by_cases symbol : c ∈ ['&', '/', '[', '(', '"']
    · simp only [List.mem_cons, List.not_mem_nil, or_false] at symbol
      rcases symbol with rfl | rfl | rfl | rfl | rfl
      · exact .inr (.inl ⟨.and, rfl⟩)
      · exact .inr (.inl ⟨.or, rfl⟩)
      · exact .inr (.inr (.inl ⟨_, _, .brackets⟩))
      · exact .inr (.inr (.inl ⟨_, _, .parentheses⟩))
      · exact .inr (.inr (.inl ⟨_, _, .quotes⟩))
    · exact .inr (.inr (.inr ⟨by simpa using blank, symbol⟩))

/-! ## Reading from a position on -/

namespace Position

theorem step_of_isBlank {c : Char} (blank : isBlank c) : between.step c = ([], between) := by
  simp [step, start, begins_none_of_isBlank blank, blank]

theorem step_symbol (connective : Connective) :
    between.step connective.symbol = ([.connective connective], between) := by
  cases connective <;> rfl

theorem step_of_delimits {kind : GroupKind} {opening closing : Char}
    (delimits : Delimits kind opening closing) :
    between.step opening = ([], inGroup opening kind closing []) := by
  cases delimits <;> rfl

theorem step_of_isPlain {c : Char} (plain : IsPlain c) : between.step c = ([], inBare [c]) := by
  simp [step, start, begins_none plain.2, plain.1]

/-- The tokens of a text that is read from a position on. -/
def read : Position → List Char → Except Flaw (List Token)
  | position, [] => position.finish
  | position, c :: rest =>
      ((position.step c).2.read rest).map ((position.step c).1 ++ ·)

/-- A character that completes no token only changes the position. -/
theorem read_cons {position next : Position} {c : Char} (step : position.step c = ([], next))
    (rest : List Char) : position.read (c :: rest) = next.read rest := by
  rw [read, step]
  cases next.read rest <;> rfl

theorem read_blanks_append {gap : List Char} (blank : ∀ c ∈ gap, isBlank c) (text : List Char) :
    between.read (gap ++ text) = between.read text := by
  induction gap with
  | nil => rfl
  | cons c rest ih =>
      rw [List.forall_mem_cons] at blank
      rw [List.cons_append, read_cons (step_of_isBlank blank.1), ih blank.2]

/-- Inside of a group the characters are collected up to the closing one. -/
theorem read_inGroup {opening closing : Char} {kind : GroupKind} {inside : List Char}
    (unclosed : closing ∉ inside) (body rest : List Char) :
    (inGroup opening kind closing body).read (inside ++ rest) =
      (inGroup opening kind closing (inside.reverse ++ body)).read rest := by
  induction inside generalizing body with
  | nil => rfl
  | cons c inside ih =>
      rw [List.mem_cons, not_or] at unclosed
      have goOn :
          (inGroup opening kind closing body).step c =
            ([], inGroup opening kind closing (c :: body)) := by
        simp [step, Ne.symm unclosed.1]
      rw [List.cons_append, read_cons goOn, ih unclosed.2, List.reverse_cons, List.append_assoc]
      rfl

/-- A group that is closed is a token. -/
theorem read_group {opening closing : Char} {kind : GroupKind}
    (delimits : Delimits kind opening closing) {inside : List Char} (unclosed : closing ∉ inside)
    (rest : List Char) :
    between.read (opening :: (inside ++ closing :: rest)) =
      (between.read rest).map (.group kind (trim inside) :: ·) := by
  rw [read_cons (step_of_delimits delimits), read_inGroup unclosed, read]
  simp [step]

theorem read_open {opening closing : Char} {kind : GroupKind}
    (delimits : Delimits kind opening closing) {inside : List Char} (unclosed : closing ∉ inside) :
    between.read (opening :: inside) = .error (.unterminated opening) := by
  rw [read_cons (step_of_delimits delimits), ← List.append_nil inside, read_inGroup unclosed]
  rfl

theorem read_inBare {plain : List Char} (isPlain : ∀ c ∈ plain, IsPlain c)
    (text rest : List Char) :
    (inBare text).read (plain ++ rest) = (inBare (plain.reverse ++ text)).read rest := by
  induction plain generalizing text with
  | nil => rfl
  | cons c plain ih =>
      rw [List.forall_mem_cons] at isPlain
      have goOn : (inBare text).step c = ([], inBare (c :: text)) := by
        simp [step, isPlain.1.endsBare]
      rw [List.cons_append, read_cons goOn, ih isPlain.2, List.reverse_cons, List.append_assoc]
      rfl

/-- Bare text is a token if what follows ends it. -/
theorem read_bare {plain rest : List Char} (nonempty : plain ≠ [])
    (isPlain : ∀ c ∈ plain, IsPlain c) (ends : ∀ c ∈ rest.head?, endsBare c) :
    between.read (plain ++ rest) = (between.read rest).map (.bare plain :: ·) := by
  match plain with
  | first :: plain =>
      rw [List.forall_mem_cons] at isPlain
      rw [List.cons_append, read_cons (step_of_isPlain isPlain.1), read_inBare isPlain.2]
      cases rest with
      | nil => simp [read, finish, Except.map]
      | cons c rest =>
          have endsHere : endsBare c := ends c rfl
          simp only [read, step, endsHere, if_true]
          cases (start c).2.read rest <;> simp [Except.map]

theorem read_symbol (connective : Connective) (rest : List Char) :
    between.read (connective.symbol :: rest) =
      (between.read rest).map (.connective connective :: ·) := by
  rw [read, step_symbol]
  rfl

end Position

/-- The scanner has the tokens that are complete, and reads on from its position. -/
theorem finish_foldl_step (scanner : Scanner) (text : List Char) :
    (text.foldl Scanner.step scanner).finish =
      (scanner.position.read text).map (scanner.tokens.reverse ++ ·) := by
  induction text generalizing scanner with
  | nil => rfl
  | cons c rest ih =>
      rw [List.foldl_cons, ih, Position.read]
      simp only [Scanner.step]
      cases (scanner.position.step c).2.read rest <;> simp [Except.map]

theorem scan_eq_read (text : List Char) : scan text = Position.between.read text := by
  rw [scan, finish_foldl_step]
  show (Position.between.read text).map _ = _
  cases Position.between.read text <;> rfl

/-- A text that is one group is one token. -/
theorem scan_group {kind : GroupKind} {opening closing : Char}
    (delimits : Delimits kind opening closing) {inside : List Char} (unclosed : closing ∉ inside) :
    scan (opening :: (inside ++ [closing])) = .ok [.group kind (trim inside)] := by
  rw [scan_eq_read, Position.read_group delimits unclosed]
  rfl

/-! ## What is written is scanned -/

theorem Delimits.not_mem_of_blank {kind : GroupKind} {opening closing : Char}
    (delimits : Delimits kind opening closing) {gap : List Char} (blank : ∀ c ∈ gap, isBlank c) :
    closing ∉ gap := by
  intro member
  simpa [delimits.not_isBlank] using blank closing member

theorem WritesToken.read_append {token : Token} {piece rest : List Char}
    (writes : WritesToken token piece)
    (ends : ∀ word, token = .bare word → ∀ c ∈ rest.head?, endsBare c) :
    Position.between.read (piece ++ rest) = (Position.between.read rest).map (token :: ·) := by
  cases writes with
  | connective connective => exact Position.read_symbol connective rest
  | @group kind opening closing delimits before body after blankBefore trimmed unclosed
      blankAfter =>
      have notInside : closing ∉ before ++ body ++ after := by
        simp [delimits.not_mem_of_blank blankBefore, unclosed,
          delimits.not_mem_of_blank blankAfter]
      have sameBody : trim (before ++ body ++ after) = body := by
        rw [trim_append_blanks blankAfter, trim_blanks_append blankBefore, trimmed]
      rw [List.cons_append, List.append_assoc, List.singleton_append,
        Position.read_group delimits notInside, sameBody]
  | bare nonempty plain => exact Position.read_bare nonempty plain (ends _ rfl)

/-- Bare text begins with a plain character, and no other token does. -/
theorem WritesToken.exists_head? {token : Token} {piece : List Char}
    (writes : WritesToken token piece) :
    ∃ c, piece.head? = some c ∧ (endsBare c = false ↔ ∃ word, token = .bare word) := by
  cases writes with
  | connective connective => exact ⟨_, rfl, by simp [endsBare_symbol]⟩
  | group delimits => exact ⟨_, rfl, by simp [delimits.endsBare]⟩
  | bare nonempty plain =>
      exact ⟨_, List.head?_eq_some_head nonempty,
        by simpa using (plain _ (List.head_mem nonempty)).endsBare⟩

theorem Writes.exists_head? {token : Token} {rest : List Token} {text : List Char}
    (writes : Writes (token :: rest) text) :
    ∃ c, text.head? = some c ∧
      (isBlank c ∨ (endsBare c = false ↔ ∃ word, token = .bare word)) := by
  cases writes with
  | @cons _ _ gap _ _ blank first _ _ =>
      cases gap with
      | nil =>
          rcases first.exists_head? with ⟨c, head, begins⟩
          exact ⟨c, by simp [head], .inr begins⟩
      | cons c gap => exact ⟨c, rfl, .inl (blank c List.mem_cons_self)⟩

/-- What follows bare text ends it if more bare text is kept apart. -/
theorem Writes.ends_bare {tokens : List Token} {text rest : List Char}
    (writes : Writes tokens text)
    (apart : ∀ word, tokens.head? = some (.bare word) → ∃ c ∈ text.head?, isBlank c)
    (ends : ∀ c ∈ rest.head?, endsBare c) : ∀ c ∈ (text ++ rest).head?, endsBare c := by
  cases tokens with
  | nil =>
      cases writes with
      | nil blank =>
          cases text with
          | nil => exact ends
          | cons d gap =>
              rintro c ⟨⟩
              exact endsBare_of_isBlank (blank _ List.mem_cons_self)
  | cons token others =>
      rcases writes.exists_head? with ⟨c, head, blank | begins⟩
      · simpa [head] using endsBare_of_isBlank blank
      · by_contra plain
        have notEnding : endsBare c = false := by
          simpa [head] using plain
        rcases begins.mp notEnding with ⟨word, rfl⟩
        rcases apart word rfl with ⟨d, sameHead, blank⟩
        cases head.symm.trans sameHead
        simp [endsBare_of_isBlank blank] at notEnding

/-- Tokens that are written are read before what follows them. -/
theorem Writes.read_append {tokens : List Token} {text rest : List Char}
    (writes : Writes tokens text) (ends : ∀ c ∈ rest.head?, endsBare c) :
    Position.between.read (text ++ rest) = (Position.between.read rest).map (tokens ++ ·) := by
  induction writes with
  | nil blank =>
      rw [Position.read_blanks_append blank]
      cases Position.between.read rest <;> rfl
  | @cons token others gap piece text blank first apart writes ih =>
      have endsWord (word : List Char) (isBare : token = .bare word) :
          ∀ c ∈ (text ++ rest).head?, endsBare c :=
        writes.ends_bare (fun other => apart word other isBare) ends
      rw [List.append_assoc, List.append_assoc, Position.read_blanks_append blank,
        first.read_append endsWord, ih]
      cases Position.between.read rest <;> rfl

theorem Writes.scan_eq_ok {tokens : List Token} {text : List Char} (writes : Writes tokens text) :
    scan text = .ok tokens := by
  have whole : Position.between.read (text ++ []) = _ := writes.read_append (by simp)
  rw [List.append_nil] at whole
  rw [scan_eq_read, whole]
  simp [Position.read, Position.finish, Except.map]

theorem LeavesOpen.scan_eq_error {opening : Char} {text : List Char}
    (leaves : LeavesOpen opening text) : scan text = .error (.unterminated opening) := by
  rcases leaves with ⟨tokens, written, _, writes, ⟨kind, closing, inside, delimits, unclosed, rfl⟩,
    rfl⟩
  have ends : ∀ c ∈ (opening :: inside).head?, endsBare c := by
    rintro c ⟨⟩
    exact delimits.endsBare
  rw [scan_eq_read, writes.read_append ends, Position.read_open delimits unclosed]
  rfl

/-! ## Every text is written or leaves a group open -/

theorem Writes.cons_blank {c : Char} (blank : isBlank c) {tokens : List Token} {text : List Char}
    (writes : Writes tokens text) : Writes tokens (c :: text) := by
  cases writes with
  | nil gapBlank => exact .nil (List.forall_mem_cons.mpr ⟨blank, gapBlank⟩)
  | cons gapBlank first apart others =>
      exact .cons (List.forall_mem_cons.mpr ⟨blank, gapBlank⟩) first apart others

/-- A token that is not bare may stand right before any others. -/
theorem Writes.cons_solid {token : Token} {piece : List Char} (first : WritesToken token piece)
    (notBare : ∀ word, token ≠ .bare word) {tokens : List Token} {text : List Char}
    (writes : Writes tokens text) : Writes (token :: tokens) (piece ++ text) :=
  .cons (List.forall_mem_nil _) first (fun word _ isBare _ => absurd isBare (notBare word)) writes

theorem isPlain_of_not_endsBare {c : Char} (notEnding : endsBare c = false) : IsPlain c := by
  rcases character_cases c with blank | ⟨connective, rfl⟩ | ⟨kind, closing, delimits⟩ | plain
  · simp [endsBare_of_isBlank blank] at notEnding
  · simp [endsBare_symbol] at notEnding
  · simp [delimits.endsBare] at notEnding
  · exact plain

/-- Bare text may stand right before tokens if these do not continue it. -/
theorem Writes.cons_bare {word : List Char} (nonempty : word ≠ []) (plain : ∀ c ∈ word, IsPlain c)
    {tokens : List Token} {text : List Char} (writes : Writes tokens text)
    (ends : ∀ c ∈ text.head?, endsBare c) : Writes (.bare word :: tokens) (word ++ text) := by
  refine .cons (List.forall_mem_nil _) (.bare nonempty plain) ?_ writes
  rintro _ other ⟨⟩ next
  rcases List.head?_eq_some_iff.mp next with ⟨rest, rfl⟩
  rcases writes.exists_head? with ⟨c, head, blank | begins⟩
  · exact ⟨c, head, blank⟩
  · have ending := ends c head
    simp [begins.mpr ⟨other, rfl⟩] at ending

/-- What stands between delimiters is blanks around the text of the group. -/
theorem WritesToken.group_of_inside {kind : GroupKind} {opening closing : Char}
    (delimits : Delimits kind opening closing) {inside : List Char} (unclosed : closing ∉ inside) :
    WritesToken (.group kind (trim inside)) (opening :: (inside ++ [closing])) := by
  rcases exists_eq_append_trim inside with ⟨before, after, blankBefore, blankAfter, split⟩
  have notInBody : closing ∉ trim inside := by
    intro member
    rw [split] at unclosed
    exact unclosed (List.mem_append_left _ (List.mem_append_right _ member))
  have writes := WritesToken.group delimits blankBefore (trim_trim inside) notInBody blankAfter
  rwa [← split] at writes

/-- A text begins with a longest bare text, which what follows cannot continue. -/
theorem exists_bare_prefix (text : List Char) :
    ∃ word rest, (∀ c ∈ word, IsPlain c) ∧ (∀ c ∈ rest.head?, endsBare c) ∧
      text = word ++ rest := by
  refine ⟨text.takeWhile (!endsBare ·), text.dropWhile (!endsBare ·), ?_, ?_,
    List.takeWhile_append_dropWhile.symm⟩
  · intro c member
    exact isPlain_of_not_endsBare (by simpa using List.mem_takeWhile_imp member)
  · intro c head
    have stopped := List.head?_dropWhile_not (!endsBare ·) text
    rw [head] at stopped
    simpa using stopped

/--
A text writes tokens up to its end or up to a group that it leaves open.  The
recursion is on the length of the text, because a group or a bare text is passed
over as a whole.
-/
theorem exists_writes (text : List Char) :
    ∃ tokens written rest, Writes tokens written ∧ (rest = [] ∨ ∃ opening, IsOpen opening rest) ∧
      text = written ++ rest := by
  match text with
  | [] => exact ⟨[], [], [], .nil (List.forall_mem_nil _), .inl rfl, rfl⟩
  | c :: text =>
      rcases character_cases c with blank | ⟨connective, rfl⟩ | ⟨kind, closing, delimits⟩ | plain
      · rcases exists_writes text with ⟨tokens, written, rest, writes, ending, rfl⟩
        exact ⟨tokens, c :: written, rest, writes.cons_blank blank, ending, rfl⟩
      · rcases exists_writes text with ⟨tokens, written, rest, writes, ending, rfl⟩
        exact ⟨_, _, rest, writes.cons_solid (.connective connective) (by simp), ending, rfl⟩
      · by_cases closed : closing ∈ text
        · rcases List.eq_append_cons_of_mem closed with ⟨inside, after, split, unclosed⟩
          have shorter : after.length < (c :: text).length := by
            rw [split, List.length_cons, List.length_append, List.length_cons]
            omega
          rcases exists_writes after with ⟨tokens, written, rest, writes, ending, same⟩
          refine ⟨_, _, rest, writes.cons_solid (.group_of_inside delimits unclosed) (by simp),
            ending, ?_⟩
          simp [split, same]
        · exact ⟨[], [], c :: text, .nil (List.forall_mem_nil _),
            .inr ⟨c, kind, closing, text, delimits, closed, rfl⟩, rfl⟩
      · rcases exists_bare_prefix text with ⟨word, others, plainWord, ends, split⟩
        have shorter : others.length < (c :: text).length := by
          rw [split, List.length_cons, List.length_append]
          omega
        rcases exists_writes others with ⟨tokens, written, rest, writes, ending, rfl⟩
        have endsWritten : ∀ d ∈ written.head?, endsBare d := by
          intro d head
          exact ends d (by rw [List.head?_append, head]; rfl)
        refine ⟨_, _, rest, writes.cons_bare (List.cons_ne_nil c word)
          (List.forall_mem_cons.mpr ⟨plain, plainWord⟩) endsWritten, ending, ?_⟩
        simp [split]
termination_by text.length

theorem writes_or_leavesOpen (text : List Char) :
    (∃ tokens, Writes tokens text) ∨ ∃ opening, LeavesOpen opening text := by
  rcases exists_writes text with ⟨tokens, written, rest, writes, rfl | ⟨opening, isOpen⟩, rfl⟩
  · exact .inl ⟨tokens, by rwa [List.append_nil]⟩
  · exact .inr ⟨opening, tokens, written, rest, writes, isOpen, rfl⟩

/--
Scanning inverts writing.  A text is scanned as some tokens if and only if it
writes them, and is not scanned if and only if it leaves a group open, which is
the flaw then.  There are no other texts.
-/
theorem scan_inverts_writing (text : List Char) :
    (∀ tokens, scan text = .ok tokens ↔ Writes tokens text) ∧
      (∀ flaw, scan text = .error flaw ↔
        ∃ opening, flaw = .unterminated opening ∧ LeavesOpen opening text) ∧
      ((∃ tokens, Writes tokens text) ∨ ∃ opening, LeavesOpen opening text) := by
  have either := writes_or_leavesOpen text
  refine ⟨fun tokens => ⟨fun scanned => ?_, Writes.scan_eq_ok⟩, fun flaw => ⟨fun failed => ?_, ?_⟩,
    either⟩
  · rcases either with ⟨others, writes⟩ | ⟨opening, leaves⟩
    · cases scanned.symm.trans writes.scan_eq_ok
      exact writes
    · cases scanned.symm.trans leaves.scan_eq_error
  · rcases either with ⟨others, writes⟩ | ⟨opening, leaves⟩
    · cases failed.symm.trans writes.scan_eq_ok
    · cases failed.symm.trans leaves.scan_eq_error
      exact ⟨opening, rfl, leaves⟩
  · rintro ⟨opening, rfl, leaves⟩
    exact leaves.scan_eq_error

example :
    scan "(X LIKES Y)&[T < 1800]/ \"X FEARS Y\"".toList =
      .ok [.group .relational "X LIKES Y".toList, .connective .and,
        .group .time "T < 1800".toList, .connective .or,
        .group .relational "X FEARS Y".toList] := by
  decide

end Fabula.Script
