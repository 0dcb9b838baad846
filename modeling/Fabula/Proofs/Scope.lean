import Fabula.Proofs.Outcome
import Fabula.Script.Scope

/-!
# What reading does to a scope

A scope numbers its variables by their places.  Declaring a name again may
lower the limit of its variable and changes nothing else, so the variables
without their limits form a list that only grows: the signature of a scope.

The statements about readers below all have one shape.  The scope in which a
reader ends extends the one in which it begins, the variables that the reader
mentions stand in the signature at the end, and, for terms and actions, every
variable that is new there is mentioned.
-/

namespace Fabula

/-- A variable without its limit: what every declaration of it agrees on. -/
def Variable.unlimited (v : Variable) : Variable :=
  { v with limit := none }

@[simp]
theorem Variable.unlimited_id (v : Variable) : v.unlimited.id = v.id :=
  rfl

theorem Variable.unlimited_eq_iff {v w : Variable} :
    v.unlimited = w.unlimited ↔
      v.id = w.id ∧ v.name = w.name ∧ v.className = w.className := by
  simp [unlimited]

/-- The variable that a term mentions, without its limit. -/
def Term.mentioned (term : Term) : List Variable :=
  term.asVariable.toList.map Variable.unlimited

theorem Term.mem_mentioned {term : Term} {v : Variable} :
    v ∈ term.mentioned ↔ ∃ w, term = .var w ∧ w.unlimited = v := by
  cases term <;> simp [mentioned, asVariable, eq_comm]

namespace Script

namespace Scope

/-! ## Signatures -/

/-- The variables of a scope without their limits, in the order of declaration. -/
def signature (scope : Scope) : List Variable :=
  scope.declared.toList.map Variable.unlimited

/-- Every variable is numbered by its place. -/
def Numbered (scope : Scope) : Prop :=
  ∀ (place : Nat) (v : Variable), scope.signature[place]? = some v → v.id = place

@[simp]
theorem length_signature (scope : Scope) :
    scope.signature.length = scope.declared.size := by
  simp [signature]

theorem numbered_empty : empty.Numbered := by
  intro place v found
  simp [signature, empty] at found

@[simp]
theorem signature_child (scope : Scope) : scope.child.signature = scope.signature :=
  rfl

theorem getElem?_signature {scope : Scope} {place : Nat} {v : Variable} :
    scope.signature[place]? = some v ↔
      ∃ w, scope.declared[place]? = some w ∧ w.unlimited = v := by
  rw [signature, List.getElem?_map, Array.getElem?_toList, Option.map_eq_some_iff]

theorem Numbered.id_eq {scope : Scope} (numbered : scope.Numbered) {place : Nat} {v : Variable}
    (found : scope.declared[place]? = some v) : v.id = place :=
  numbered place v.unlimited (getElem?_signature.mpr ⟨v, found, rfl⟩)

theorem unlimited_mem_signature {scope : Scope} {v : Variable}
    (member : v ∈ scope.declared.toList) : v.unlimited ∈ scope.signature :=
  List.mem_map_of_mem member

/-- In a numbered scope a variable stands at the place that is its number. -/
theorem Numbered.getElem?_id {scope : Scope} {v : Variable}
    (numbered : scope.Numbered) (member : v ∈ scope.signature) :
    scope.signature[v.id]? = some v := by
  rcases List.mem_iff_getElem?.mp member with ⟨place, found⟩
  rw [numbered place v found]
  exact found

theorem lookup_eq_some_iff {scope : Scope} {name : String} {v : Variable} :
    scope.lookup name = some v ↔
      ∃ id, scope.byName[name]? = some id ∧ scope.declared[id]? = some v :=
  Option.bind_eq_some_iff

theorem lookup_mem {scope : Scope} {name : String} {v : Variable}
    (found : scope.lookup name = some v) : v ∈ scope.declared.toList := by
  rcases lookup_eq_some_iff.mp found with ⟨id, _, here⟩
  exact Array.mem_toList_iff.mpr (Array.mem_of_getElem? here)

/-- Giving a variable another limit leaves the signature as it is. -/
theorem signature_replace {scope : Scope} {v : Variable}
    (found : scope.signature[v.id]? = some v.unlimited) :
    (scope.replace v).signature = scope.signature := by
  have replaced :
      (scope.replace v).signature = scope.signature.set v.id v.unlimited := by
    simp [signature, replace, List.map_set]
  rw [replaced]
  apply List.ext_getElem?
  intro place
  by_cases same : v.id = place
  · subst place
    rcases List.getElem?_eq_some_iff.mp found with ⟨inside, _⟩
    rw [List.getElem?_set_self inside, found]
  · rw [List.getElem?_set_ne same]

theorem signature_lower {scope : Scope} (numbered : scope.Numbered) {name : String}
    {v : Variable} (looked : scope.lookup name = some v) (limit : Option Nat) :
    (scope.replace { v with limit }).signature = scope.signature :=
  signature_replace (numbered.getElem?_id (unlimited_mem_signature (lookup_mem looked)))

@[simp]
theorem signature_add (scope : Scope) (v : Variable) :
    (scope.add v).signature = scope.signature ++ [v.unlimited] := by
  simp [signature, add]

theorem getElem?_signature_add {scope : Scope} {v w : Variable} {place : Nat} :
    (scope.add v).signature[place]? = some w ↔
      scope.signature[place]? = some w ∨ place = scope.declared.size ∧ w = v.unlimited := by
  rw [signature_add, List.getElem?_append, length_signature]
  split
  · rename_i inside
    simp [Nat.ne_of_lt inside]
  · rename_i outside
    have notThere : scope.signature[place]? = none := by
      rw [List.getElem?_eq_none_iff, length_signature]
      omega
    rw [notThere, List.getElem?_singleton]
    by_cases last : place = scope.declared.size
    · simp [last, eq_comm]
    · have behind : place - scope.declared.size ≠ 0 := by omega
      simp [last, behind]

theorem Numbered.add {scope : Scope} {v : Variable}
    (numbered : scope.Numbered) (next : v.id = scope.declared.size) :
    (scope.add v).Numbered := by
  intro place w found
  rcases getElem?_signature_add.mp found with old | ⟨rfl, rfl⟩
  · exact numbered place w old
  · exact next

/-! ## Scopes that extend others -/

/-- How a scope looks after some reading that began in the scope `before`. -/
structure Extends (before after : Scope) : Prop where
  inherited : after.inherited = before.inherited
  numbered : after.Numbered
  kept : before.signature <+: after.signature

theorem Extends.refl {scope : Scope} (numbered : scope.Numbered) :
    Extends scope scope :=
  ⟨rfl, numbered, List.prefix_rfl⟩

theorem Extends.trans {first second third : Scope}
    (left : Extends first second) (right : Extends second third) :
    Extends first third :=
  ⟨right.inherited.trans left.inherited, right.numbered,
    left.kept.trans right.kept⟩

theorem Extends.mem {before after : Scope} {v : Variable}
    (extended : Extends before after) (member : v ∈ before.signature) :
    v ∈ after.signature :=
  extended.kept.subset member

/-- Reading something that mentions variables: these are known then, and nothing else is new. -/
structure Reads (before after : Scope) (mentioned : List Variable) : Prop
    extends Extends before after where
  known : ∀ v ∈ mentioned, v ∈ after.signature
  fresh : ∀ v ∈ after.signature, v ∈ before.signature ∨ v ∈ mentioned

theorem Reads.nothing {scope : Scope} (numbered : scope.Numbered) :
    Reads scope scope [] :=
  { Extends.refl numbered with
    known := by simp
    fresh := fun _ member => .inl member }

theorem Reads.append {first second third : Scope} {earlier later : List Variable}
    (left : Reads first second earlier) (right : Reads second third later) :
    Reads first third (earlier ++ later) where
  toExtends := left.toExtends.trans right.toExtends
  known := by
    intro v member
    rcases List.mem_append.mp member with old | new
    · exact right.toExtends.mem (left.known v old)
    · exact right.known v new
  fresh := by
    intro v member
    rcases right.fresh v member with old | new
    · rcases left.fresh v old with older | mentioned
      · exact .inl older
      · exact .inr (List.mem_append_left _ mentioned)
    · exact .inr (List.mem_append_right _ new)

theorem Reads.congr {before after : Scope} {mentioned others : List Variable}
    (reads : Reads before after mentioned)
    (same : ∀ v, v ∈ mentioned ↔ v ∈ others) :
    Reads before after others where
  toExtends := reads.toExtends
  known := fun v member => reads.known v ((same v).mpr member)
  fresh := fun v member => (reads.fresh v member).imp_right (same v).mp

/-! ## Declarations -/

/-- A declaration makes a new variable, or it lowers the limit of the one with its name. -/
theorem declare_cases {name : Option String} {className : String} {limit : Option Nat}
    {before after : Scope} {v : Variable}
    (declared : declare name className limit before = .ok v after) :
    (name.bind before.lookup = none ∧
        v = before.newVariable name className limit ∧ after = before.add v) ∨
      ∃ text old,
        name = some text ∧ before.lookup text = some old ∧ old.className = className ∧
          v = { old with limit := minLimit old.limit limit } ∧ after = before.replace v := by
  rw [declare] at declared
  split at declared
  · rename_i unknown
    cases declared
    exact .inl ⟨unknown, rfl, rfl⟩
  · rename_i old found
    split at declared
    · rename_i sameClass
      cases declared
      rcases Option.bind_eq_some_iff.mp found with ⟨text, named, looked⟩
      exact .inr ⟨text, old, named, looked, by simpa using sameClass, rfl, rfl⟩
    · cases declared

theorem declare_reads {name : Option String} {className : String}
    {limit : Option Nat} {before after : Scope} {v : Variable}
    (numbered : before.Numbered)
    (declared : declare name className limit before = .ok v after) :
    Reads before after [v.unlimited] := by
  rcases declare_cases declared with ⟨_, rfl, rfl⟩ | ⟨text, old, _, looked, _, rfl, rfl⟩
  · refine
      { inherited := rfl
        numbered := numbered.add rfl
        kept := ?_
        known := ?_
        fresh := ?_ }
    · rw [signature_add]
      exact List.prefix_append _ _
    · simp
    · intro w member
      rw [signature_add, List.mem_append] at member
      exact member
  · have member : old.unlimited ∈ before.signature :=
      unlimited_mem_signature (lookup_mem looked)
    have same := signature_lower numbered looked (minLimit old.limit limit)
    refine
      { inherited := rfl
        numbered := ?_
        kept := ?_
        known := ?_
        fresh := ?_ }
    · rw [Numbered]
      rw [same]
      exact numbered
    · refine ⟨[], ?_⟩
      rw [List.append_nil, same]
    · rw [same]
      intro w only
      rw [List.mem_singleton.mp only]
      exact member
    · rw [same]
      exact fun _ old => .inl old

end Scope

/-! ## Terms -/

open Scope Fabula.Text

/-- A result that depends on no scope leaves the scope as it is. -/
theorem lift_eq_ok {α : Type} {computation : Except Error α} {value : α}
    {before after : Scope} :
    (liftM computation : Scoped α) before = .ok value after ↔
      computation = .ok value ∧ after = before := by
  cases computation with
  | ok result =>
      change EStateM.Result.ok result before = _ ↔ _
      simp [eq_comm]
  | error cause =>
      change EStateM.Result.error cause before = _ ↔ _
      simp

theorem lift_eq_error {α : Type} {computation : Except Error α} {cause : Error}
    {before after : Scope} :
    (liftM computation : Scoped α) before = .error cause after ↔
      computation = .error cause ∧ after = before := by
  cases computation with
  | ok result =>
      change EStateM.Result.ok result before = _ ↔ _
      simp
  | error cause =>
      change EStateM.Result.error cause before = _ ↔ _
      simp [eq_comm]

theorem throw_ne_ok {α : Type} {cause : Error} {value : α} {before after : Scope} :
    (throw cause : Scoped α) before ≠ .ok value after := by
  intro thrown
  cases thrown

theorem readName_eq_ok {name : List Char} {before after : Scope} {term : Term} :
    readName name before = .ok term after ↔
      ∃ v, before.lookup (String.ofList name) = some v ∧ term = .var v ∧ after = before := by
  constructor
  · intro read
    rcases Outcome.run_bind_eq_ok.mp read with ⟨scope, middle, got, resolved⟩
    cases got
    rcases Outcome.run_bind_eq_ok.mp resolved with ⟨v, last, found, returned⟩
    rcases lift_eq_ok.mp found with ⟨found, rfl⟩
    cases returned
    rw [Scope.resolve] at found
    split at found
    · rename_i w looked
      cases found
      exact ⟨v, looked, rfl, rfl⟩
    · cases found
  · rintro ⟨v, looked, rfl, rfl⟩
    have found : after.resolve (String.ofList name) = .ok v := by
      rw [Scope.resolve, looked]
    exact Outcome.run_bind_eq_ok.mpr ⟨after, after, rfl,
      Outcome.run_bind_eq_ok.mpr ⟨v, after, lift_eq_ok.mpr ⟨found, rfl⟩, rfl⟩⟩

theorem readName_reads {name : List Char} {before after : Scope} {term : Term}
    (numbered : before.Numbered)
    (read : readName name before = .ok term after) :
    Reads before after term.mentioned := by
  rcases readName_eq_ok.mp read with ⟨v, looked, rfl, rfl⟩
  have member := unlimited_mem_signature (lookup_mem looked)
  refine
    { Extends.refl numbered with
      known := ?_
      fresh := fun _ old => .inl old }
  intro w only
  rw [List.mem_singleton.mp only]
  exact member

theorem readDeclaration_eq_ok {token className : List Char} {name : Option String}
    {limit : Option Nat} {before after : Scope} {term : Term} :
    readDeclaration token name className limit before = .ok term after ↔
      className.isEmpty = false ∧
        ∃ v, declare name (String.ofList className) limit before = .ok v after ∧
          term = .var v := by
  rw [readDeclaration]
  cases className.isEmpty with
  | true => simp [throw_ne_ok]
  | false =>
      rw [if_neg Bool.false_ne_true, Outcome.run_bind_eq_ok]
      constructor
      · rintro ⟨v, middle, declared, returned⟩
        cases returned
        exact ⟨rfl, v, declared, rfl⟩
      · rintro ⟨_, v, declared, rfl⟩
        exact ⟨v, after, declared, rfl⟩

theorem readDeclaration_reads {token className : List Char} {name : Option String}
    {limit : Option Nat} {before after : Scope} {term : Term}
    (numbered : before.Numbered)
    (read : readDeclaration token name className limit before = .ok term after) :
    Reads before after term.mentioned := by
  rcases readDeclaration_eq_ok.mp read with ⟨_, v, declared, rfl⟩
  exact declare_reads numbered declared

/-- A token for a noun: it is no variable, and does not begin as a declaration or a name does. -/
structure IsLiteral (token : List Char) : Prop where
  notVariable : token ≠ ['X'] ∧ token ≠ ['Y']
  notDeclaration : ¬['X', '.'] <+: token ∧ ¬['Y', '.'] <+: token
  notNumberSign : ¬['#'] <+: token

theorem readName_ne_noun {name : List Char} {before after : Scope} {noun : String} :
    readName name before ≠ .ok (.noun noun) after := by
  intro read
  rcases readName_eq_ok.mp read with ⟨v, _, isVariable, _⟩
  cases isVariable

theorem readDeclaration_ne_noun {token className : List Char} {name : Option String}
    {limit : Option Nat} {before after : Scope} {noun : String} :
    readDeclaration token name className limit before ≠ .ok (.noun noun) after := by
  intro read
  rcases readDeclaration_eq_ok.mp read with ⟨_, v, _, isVariable⟩
  cases isVariable

/--
A token is the name of a variable, a declaration, malformed, or a noun.  Only a
token that begins with `#.` declares a variable without a name.
-/
theorem readTerm_cases (token : List Char) :
    (∃ name, readTerm token = readName name) ∨
      (∃ name className limit,
        readTerm token = readDeclaration token name className limit ∧
          (name = none → ['#', '.'] <+: token)) ∨
      (∃ cause, readTerm token = throw cause) ∨
      (IsLiteral token ∧ readTerm token = pure (.noun (String.ofList token))) := by
  unfold readTerm
  split
  · exact .inl ⟨_, rfl⟩
  · exact .inl ⟨_, rfl⟩
  · split
    · exact .inr (.inr (.inl ⟨_, rfl⟩))
    · exact .inr (.inl ⟨_, _, _, rfl, nofun⟩)
  · rename_i rest
    cases cut? [':'] rest with
    | none => exact .inr (.inl ⟨_, _, _, rfl, nofun⟩)
    | some parts =>
        dsimp only
        cases readLimit ('Y' :: '.' :: rest) parts.2 with
        | ok limit => exact .inr (.inl ⟨_, _, some limit, rfl, nofun⟩)
        | error cause => exact .inr (.inr (.inl ⟨cause, rfl⟩))
  · rename_i rest
    cases cut : cut? ['.'] rest with
    | some parts =>
        refine .inr (.inl ⟨_, _, _, rfl, ?_⟩)
        intro anonymous
        split at anonymous
        · rename_i unnamed
          rcases parts with ⟨name, className⟩
          rcases cut?_singleton.mp cut with ⟨rfl, _⟩
          have empty : name = [] := List.isEmpty_iff.mp unnamed
          rw [empty]
          exact ⟨className, rfl⟩
        · cases anonymous
    | none =>
        dsimp only
        split
        · exact .inr (.inr (.inl ⟨_, rfl⟩))
        · exact .inl ⟨_, rfl⟩
  · rename_i notX notY notXDot notYDot notSign
    refine .inr (.inr (.inr ⟨⟨⟨notX, notY⟩, ⟨?_, ?_⟩, ?_⟩, rfl⟩))
    · rintro ⟨className, rfl⟩
      exact notXDot className rfl
    · rintro ⟨rest, rfl⟩
      exact notYDot rest rfl
    · rintro ⟨rest, rfl⟩
      exact notSign rest rfl

/-- Literal tokens, and no others, are read as nouns, and declare nothing. -/
theorem readTerm_eq_noun {token : List Char} {before after : Scope} {noun : String} :
    readTerm token before = .ok (.noun noun) after ↔
      IsLiteral token ∧ noun = String.ofList token ∧ after = before := by
  constructor
  · intro read
    rcases readTerm_cases token with
      ⟨name, form⟩ | ⟨name, className, limit, form, _⟩ | ⟨cause, form⟩ | ⟨isLiteral, form⟩
    · rw [form] at read
      exact absurd read readName_ne_noun
    · rw [form] at read
      exact absurd read readDeclaration_ne_noun
    · rw [form] at read
      exact absurd read throw_ne_ok
    · rw [form] at read
      cases read
      exact ⟨isLiteral, rfl, rfl⟩
  · rintro ⟨isLiteral, rfl, rfl⟩
    unfold readTerm
    split
    · exact absurd rfl isLiteral.notVariable.1
    · exact absurd rfl isLiteral.notVariable.2
    · rename_i className
      exact absurd ⟨className, rfl⟩ isLiteral.notDeclaration.1
    · rename_i rest
      exact absurd ⟨rest, rfl⟩ isLiteral.notDeclaration.2
    · rename_i rest
      exact absurd ⟨rest, rfl⟩ isLiteral.notNumberSign
    · rfl

/-- Reading a term leaves the scope as it is, or declares the variable that is read. -/
theorem readTerm_eq_ok {token : List Char} {before after : Scope} {term : Term}
    (read : readTerm token before = .ok term after) :
    after = before ∨ ∃ name className limit v,
      term = .var v ∧ declare name className limit before = .ok v after := by
  rcases readTerm_cases token with
    ⟨name, form⟩ | ⟨name, className, limit, form, _⟩ | ⟨cause, form⟩ | ⟨_, form⟩
  · rw [form] at read
    rcases readName_eq_ok.mp read with ⟨_, _, _, same⟩
    exact .inl same
  · rw [form] at read
    rcases readDeclaration_eq_ok.mp read with ⟨_, v, declared, isVariable⟩
    exact .inr ⟨name, String.ofList className, limit, v, isVariable, declared⟩
  · rw [form] at read
    exact absurd read throw_ne_ok
  · rw [form] at read
    cases read
    exact .inl rfl

/-- Reading a term mentions its variable, if it is one. -/
theorem readTerm_reads {token : List Char} {before after : Scope} {term : Term}
    (numbered : before.Numbered) (read : readTerm token before = .ok term after) :
    Reads before after term.mentioned := by
  rcases readTerm_cases token with
    ⟨name, form⟩ | ⟨name, className, limit, form, _⟩ | ⟨cause, form⟩ | ⟨_, form⟩
  · rw [form] at read
    exact readName_reads numbered read
  · rw [form] at read
    exact readDeclaration_reads numbered read
  · rw [form] at read
    exact absurd read throw_ne_ok
  · rw [form] at read
    cases read
    exact Reads.nothing numbered

/-- Reading an optional term mentions the variable of the term, if there is one. -/
theorem readTerm?_reads {token : Option (List Char)} {before after : Scope}
    {term : Option Term} (numbered : before.Numbered)
    (read : readTerm? token before = .ok term after) :
    Reads before after (term.toList.flatMap Term.mentioned) := by
  cases token with
  | none =>
      cases read
      exact Reads.nothing numbered
  | some token =>
      rcases Outcome.run_map_eq_ok.mp read with ⟨value, readValue, rfl⟩
      simpa using readTerm_reads numbered readValue

end Script

end Fabula
