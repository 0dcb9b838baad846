import Fabula.Proofs.Scope
import Fabula.Script.Sentence

/-!
# How chains are built

Sentence lists, time groups and the relations of a group are read by one and the
same machine, which waits in turn for operands and for connectives.  It accepts
the items of a chain and nothing else: no connective may be missing, doubled,
leading or trailing.  What is said of a reader further on is said of the items
that it has read.
-/

namespace Fabula.Script

open Outcome

theorem flawIn_eq_ok {α : Type} {text : List Char} {result : Except Flaw α}
    {value : α} : flawIn text result = .ok value ↔ result = .ok value := by
  cases result <;> simp [flawIn]

/-! ## The machine -/

/-- What stands in a chain: an operand, and further operands each behind a connective. -/
def Chain.items {α : Type} (chain : Chain α) : List (Connective ⊕ α) :=
  .inr chain.first :: chain.rest.flatMap fun link => [.inl link.1, .inr link.2]

theorem Chain.inr_mem_items {α : Type} {chain : Chain α} {operand : α} :
    .inr operand ∈ chain.items ↔ operand ∈ chain.operands := by
  simp [items, operands]

namespace Partial

variable {α : Type}

/-- Go on with connectives and operands to the end of a chain. -/
def build : Partial α → List (Connective ⊕ α) → Except Flaw (Chain α)
  | chain, [] => chain.finish
  | chain, .inl symbol :: rest => do (← chain.connective symbol).build rest
  | chain, .inr value :: rest => do (← chain.operand value).build rest

theorem build_connective_operand (first : α) (behind : List (Connective × α))
    (symbol : Connective) (value : α) (rest : List (Connective ⊕ α)) :
    (complete first behind).build (.inl symbol :: .inr value :: rest) =
      (complete first ((symbol, value) :: behind)).build rest :=
  rfl

/-- Behind an operand a chain ends, or goes on with a connective and an operand. -/
theorem build_complete {first : α} {behind : List (Connective × α)}
    {items : List (Connective ⊕ α)} {whole : Chain α} :
    (complete first behind).build items = .ok whole ↔
      ∃ links, items = links.flatMap (fun link => [.inl link.1, .inr link.2]) ∧
        whole = { first, rest := behind.reverse ++ links } := by
  constructor
  · intro built
    match items with
    | [] =>
        cases built
        exact ⟨[], rfl, by simp⟩
    | [.inl symbol] => cases built
    | .inl symbol :: .inl other :: rest => cases built
    | .inr value :: rest => cases built
    | .inl symbol :: .inr value :: rest =>
        rw [build_connective_operand] at built
        rcases build_complete.mp built with ⟨links, rfl, rfl⟩
        exact ⟨(symbol, value) :: links, rfl, by simp⟩
  · rintro ⟨links, rfl, rfl⟩
    induction links generalizing behind with
    | nil => simp [build, finish]
    | cons link rest ih =>
        rw [List.flatMap_cons, List.cons_append, List.cons_append, List.nil_append,
          build_connective_operand, ih, List.reverse_cons, List.append_assoc]
        rfl

/-- A chain is built from its items and from nothing else. -/
theorem build_eq_ok {items : List (Connective ⊕ α)} {whole : Chain α} :
    nothing.build items = .ok whole ↔ items = whole.items := by
  match items with
  | [] => exact ⟨nofun, nofun⟩
  | .inl symbol :: rest =>
      constructor
      · intro built
        cases built
      · intro same
        cases same
  | .inr value :: rest =>
      have begin : nothing.build (.inr value :: rest) = (complete value []).build rest := by
        rfl
      rw [begin, build_complete]
      constructor
      · rintro ⟨links, rfl, rfl⟩
        rfl
      · intro same
        cases same
        exact ⟨whole.rest, rfl, rfl⟩

end Partial

/-! ## Pieces -/

/-- A piece is read as an item of a chain. -/
inductive Piece.Reads {α : Type} (readOperand : List Char → Except Error α) :
    Piece → Connective ⊕ α → Prop where
  | text {text : List Char} {value : α} (read : readOperand text = .ok value) :
      Reads readOperand (.text text) (.inr value)
  | connective (symbol : Connective) : Reads readOperand (.connective symbol) (.inl symbol)

theorem Piece.reads_text {α : Type} {readOperand : List Char → Except Error α} {text : List Char}
    {value : α} :
    Piece.Reads readOperand (.text text) (.inr value) ↔ readOperand text = .ok value :=
  ⟨fun | .text read => read, .text⟩

theorem Piece.reads_connective {α : Type} {readOperand : List Char → Except Error α}
    {symbol other : Connective} :
    Piece.Reads readOperand (.connective symbol) (.inl other) ↔ symbol = other :=
  ⟨fun | .connective _ => rfl, fun same => same ▸ .connective symbol⟩

theorem readPieces_eq_build {α : Type} {body : List Char}
    {readOperand : List Char → Except Error α} {chain : Partial α} {pieces : List Piece}
    {whole : Chain α} :
    readPieces body readOperand chain pieces = .ok whole ↔
      ∃ items, List.Forall₂ (Piece.Reads readOperand) pieces items ∧
        chain.build items = .ok whole := by
  induction pieces generalizing chain with
  | nil =>
      rw [readPieces, flawIn_eq_ok]
      simp [Partial.build]
  | cons piece rest ih =>
      cases piece with
      | connective symbol =>
          rw [readPieces, bind_eq_ok]
          simp only [flawIn_eq_ok, ih]
          constructor
          · rintro ⟨longer, extended, items, reads, built⟩
            exact ⟨_, .cons (.connective symbol) reads, bind_eq_ok.mpr ⟨longer, extended, built⟩⟩
          · rintro ⟨_, _ | ⟨_ | _, reads⟩, built⟩
            rcases bind_eq_ok.mp built with ⟨longer, extended, built⟩
            exact ⟨longer, extended, _, reads, built⟩
      | text text =>
          rw [readPieces, bind_eq_ok]
          simp only [bind_eq_ok, flawIn_eq_ok, ih]
          constructor
          · rintro ⟨value, read, longer, extended, items, reads, built⟩
            exact ⟨_, .cons (.text read) reads, bind_eq_ok.mpr ⟨longer, extended, built⟩⟩
          · rintro ⟨_, _ | ⟨⟨read⟩ | _, reads⟩, built⟩
            rcases bind_eq_ok.mp built with ⟨longer, extended, built⟩
            exact ⟨_, read, longer, extended, _, reads, built⟩

/-- Pieces are read as a chain if they are read one by one as what stands in it. -/
theorem readPieces_eq_ok {α : Type} {body : List Char} {readOperand : List Char → Except Error α}
    {pieces : List Piece} {whole : Chain α} :
    readPieces body readOperand .nothing pieces = .ok whole ↔
      List.Forall₂ (Piece.Reads readOperand) pieces whole.items := by
  rw [readPieces_eq_build]
  simp [Partial.build_eq_ok]

/-- Every operand of a chain of pieces is read from a piece. -/
theorem exists_of_readPieces {α : Type} {body : List Char}
    {readOperand : List Char → Except Error α} {pieces : List Piece} {whole : Chain α}
    (read : readPieces body readOperand .nothing pieces = .ok whole) {operand : α}
    (member : operand ∈ whole.operands) : ∃ text, readOperand text = .ok operand := by
  have reads := (readPieces_eq_ok.mp read).flip
  rcases exists_of_forall₂ reads (Chain.inr_mem_items.mpr member) with ⟨_, _, ⟨readText⟩ | _⟩
  exact ⟨_, readText⟩

/-! ## Tokens -/

/--
Tokens are read as items of a chain: connectives as they are, and every group
in the scope that the groups before it leave.  Bare text is not read.
-/
inductive TokensRead : List Token → Scope → List (Connective ⊕ Condition) → Scope → Prop where
  | nil (scope : Scope) : TokensRead [] scope [] scope
  | connective (symbol : Connective) {tokens : List Token} {before after : Scope}
      {items : List (Connective ⊕ Condition)} (rest : TokensRead tokens before items after) :
      TokensRead (.connective symbol :: tokens) before (.inl symbol :: items) after
  | group {kind : GroupKind} {body : List Char} {tokens : List Token} {before middle after : Scope}
      {operand : Condition} {items : List (Connective ⊕ Condition)}
      (read : readGroup kind body before = .ok operand middle)
      (rest : TokensRead tokens middle items after) :
      TokensRead (.group kind body :: tokens) before (.inr operand :: items) after

theorem readTokens_eq_build {text : List Char} {chain : Partial Condition} {tokens : List Token}
    {whole : Chain Condition} {before after : Scope} :
    readTokens text chain tokens before = .ok whole after ↔
      ∃ items, TokensRead tokens before items after ∧ chain.build items = .ok whole := by
  induction tokens generalizing chain before with
  | nil =>
      rw [readTokens]
      constructor
      · intro read
        rcases lift_eq_ok.mp read with ⟨finished, rfl⟩
        exact ⟨[], .nil _, flawIn_eq_ok.mp finished⟩
      · rintro ⟨_, _ | _, finished⟩
        exact lift_eq_ok.mpr ⟨flawIn_eq_ok.mpr finished, rfl⟩
  | cons token rest ih =>
      cases token with
      | connective symbol =>
          rw [readTokens, run_bind_eq_ok]
          constructor
          · rintro ⟨longer, _, lifted, remaining⟩
            rcases lift_eq_ok.mp lifted with ⟨extended, rfl⟩
            rcases ih.mp remaining with ⟨items, reads, built⟩
            exact ⟨_, .connective symbol reads,
              bind_eq_ok.mpr ⟨longer, flawIn_eq_ok.mp extended, built⟩⟩
          · rintro ⟨_, _ | ⟨_, reads⟩, built⟩
            rcases bind_eq_ok.mp built with ⟨longer, extended, built⟩
            exact ⟨longer, before, lift_eq_ok.mpr ⟨flawIn_eq_ok.mpr extended, rfl⟩,
              ih.mpr ⟨_, reads, built⟩⟩
      | group kind body =>
          rw [readTokens, run_bind_eq_ok]
          simp only [run_bind_eq_ok]
          constructor
          · rintro ⟨operand, middle, read, longer, _, lifted, remaining⟩
            rcases lift_eq_ok.mp lifted with ⟨extended, rfl⟩
            rcases ih.mp remaining with ⟨items, reads, built⟩
            exact ⟨_, .group read reads,
              bind_eq_ok.mpr ⟨longer, flawIn_eq_ok.mp extended, built⟩⟩
          · rintro ⟨_, _ | _ | ⟨read, reads⟩, built⟩
            rcases bind_eq_ok.mp built with ⟨longer, extended, built⟩
            exact ⟨_, _, read, longer, _, lift_eq_ok.mpr ⟨flawIn_eq_ok.mpr extended, rfl⟩,
              ih.mpr ⟨_, reads, built⟩⟩
      | bare bare =>
          rw [readTokens]
          refine ⟨fun read => absurd read throw_ne_ok, ?_⟩
          rintro ⟨_, reads, _⟩
          cases reads

/-- Every operand of tokens that are read is read from a group. -/
theorem TokensRead.exists_of_mem {tokens : List Token} {before after : Scope}
    {items : List (Connective ⊕ Condition)} (reads : TokensRead tokens before items after)
    {operand : Condition} (member : .inr operand ∈ items) :
    ∃ kind body earlier later, readGroup kind body earlier = .ok operand later := by
  induction reads with
  | nil => cases member
  | connective symbol _ ih => exact ih (by simpa using member)
  | group read _ ih =>
      rcases List.mem_cons.mp member with same | behind
      · cases same
        exact ⟨_, _, _, _, read⟩
      · exact ih behind

/-- A sentence list is scanned, and its tokens are read as the items of a chain. -/
theorem readSentences_eq_tokensRead {text : List Char} {before after : Scope}
    {condition : Condition} :
    readSentences text before = .ok condition after ↔
      ∃ tokens whole, scan text = .ok tokens ∧
        TokensRead tokens before (Chain.items whole) after ∧ condition = .ofChain whole := by
  have readAll (tokens : List Token) (whole : Chain Condition) :
      readTokens text .nothing tokens before = .ok whole after ↔
        TokensRead tokens before whole.items after := by
    simp [readTokens_eq_build, Partial.build_eq_ok]
  rw [readSentences, run_bind_eq_ok]
  constructor
  · rintro ⟨tokens, _, lifted, readRest⟩
    rcases lift_eq_ok.mp lifted with ⟨scanned, rfl⟩
    rcases run_bind_eq_ok.mp readRest with ⟨whole, _, read, returned⟩
    cases returned
    exact ⟨tokens, whole, flawIn_eq_ok.mp scanned, (readAll tokens whole).mp read, rfl⟩
  · rintro ⟨tokens, whole, scanned, reads, rfl⟩
    refine ⟨tokens, before, lift_eq_ok.mpr ⟨flawIn_eq_ok.mpr scanned, rfl⟩, ?_⟩
    exact run_bind_eq_ok.mpr ⟨whole, after, (readAll tokens whole).mpr reads, rfl⟩

end Fabula.Script
