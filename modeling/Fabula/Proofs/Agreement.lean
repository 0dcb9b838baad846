import Fabula.Proofs.Contents
import Fabula.Proofs.Declaration
import Fabula.Proofs.Groups
import Fabula.Proofs.Relevance
import Fabula.Proofs.WellFormed

/-!
# A sentence finds what its action does

An action and a sentence of the same text are read by two readers, and given a
meaning by two functions: one changes the network, the other asks it.  The two
agree.  Once the effect of an action is applied, the sentence with the text of
the action is true, also if the action removes a fact or exchanges its sides.

The terms are read a second time, in a scope that knows them already.  Except
for variables without a name, this declares nothing and gives the same slots.
-/

namespace Fabula

open Outcome Text

/-! ## Terms that are read again -/

namespace Script

open Scope

namespace Scope

theorem Regular.declare_named {text className : String} {limit : Option Nat}
    {before after : Scope} {v : Variable} (regular : before.Regular)
    (declared : declare (some text) className limit before = .ok v after) :
    v.name = some text ∧ v.className = className := by
  rcases declare_cases declared with ⟨_, rfl, _⟩ | ⟨_, old, named, looked, sameClass, rfl, _⟩
  · exact ⟨rfl, rfl⟩
  · have oldNamed : old.name = some text := by
      rw [named]
      exact regular.name_of_lookup looked
    exact ⟨oldNamed, sameClass⟩

/-- Declaring a variable again gives the variable, and declares nothing. -/
theorem Regular.declare_again {scope : Scope} (regular : scope.Regular) {v : Variable}
    (known : v.unlimited ∈ scope.signature) {text : String} (named : v.name = some text)
    (limit : Option Nat) :
    ∃ again after, declare (some text) v.className limit scope = .ok again after ∧
      again.id = v.id ∧ after.signature = scope.signature ∧ after.byName = scope.byName ∧
      after.inherited = scope.inherited := by
  rcases regular.lookup known named with ⟨w, looked, same⟩
  rcases Variable.unlimited_eq_iff.mp same with ⟨sameId, _, sameClass⟩
  have found : (some text).bind scope.lookup = some w := looked
  refine ⟨{ w with limit := minLimit w.limit limit },
    scope.replace { w with limit := minLimit w.limit limit }, ?_, sameId,
    signature_lower regular.numbered looked _, rfl, rfl⟩
  rw [declare, found]
  simp [sameClass]

end Scope

/-- A scope that has the signature of its parent has nothing of its own. -/
theorem Scope.locals_eq_nil {scope inner : Scope} (signature : inner.signature = scope.signature)
    (inherited : inner.inherited = scope.declared.size) : inner.locals = [] := by
  have sameSize : inner.declared.size = scope.declared.size := by
    rw [← length_signature, signature, length_signature]
  rw [Scope.locals, inherited, List.drop_eq_nil_iff, Array.length_toList, sameSize]

/-- A term is read again as a term of the same slot, and nothing is declared. -/
structure Repeats (token : List Char) (later : Scope) (term again : Term) (final : Scope) :
    Prop where
  read : readTerm token later = .ok again final
  slot : again.sameSlot term
  signature : final.signature = later.signature
  byName : final.byName = later.byName
  inherited : final.inherited = later.inherited

theorem readTerm_again {token : List Char} {before middle later : Scope} {term : Term}
    (beforeRegular : before.Regular) (read : readTerm token before = .ok term middle)
    (named : ¬['#', '.'] <+: token) (regular : later.Regular)
    (kept : ∀ v ∈ middle.signature, v ∈ later.signature) :
    ∃ again final, Repeats token later term again final := by
  have known := (readTerm_reads beforeRegular.numbered read).known
  rcases readTerm_cases token with
    ⟨name, form⟩ | ⟨name, className, limit, form, unnamed⟩ | ⟨cause, form⟩ | ⟨_, form⟩
  · rw [form] at read
    rcases readName_eq_ok.mp read with ⟨v, looked, rfl, rfl⟩
    have listed := kept _ (known v.unlimited (List.mem_singleton_self _))
    rcases regular.lookup listed (beforeRegular.name_of_lookup looked) with
      ⟨w, lookedLater, same⟩
    have sameId := (Variable.unlimited_eq_iff.mp same).1
    refine ⟨.var w, later, ?_, by simpa [Term.sameSlot] using sameId, rfl, rfl, rfl⟩
    rw [form]
    exact readName_eq_ok.mpr ⟨w, lookedLater, rfl, rfl⟩
  · rw [form] at read
    rcases readDeclaration_eq_ok.mp read with ⟨nonempty, v, declared, rfl⟩
    have listed := kept _ (known v.unlimited (List.mem_singleton_self _))
    cases name with
    | none => exact absurd (unnamed rfl) named
    | some text =>
        rcases beforeRegular.declare_named declared with ⟨vNamed, sameClass⟩
        rcases regular.declare_again listed vNamed limit with
          ⟨w, final, again, sameId, sameSignature, byName, inherited⟩
        rw [sameClass] at again
        refine ⟨.var w, final, ?_, by simpa [Term.sameSlot] using sameId, sameSignature, byName,
          inherited⟩
        rw [form]
        exact readDeclaration_eq_ok.mpr ⟨nonempty, w, again, rfl⟩
  · rw [form] at read
    exact absurd read throw_ne_ok
  · rw [form] at read
    cases read
    refine ⟨.noun (String.ofList token), later, ?_, by simp [Term.sameSlot], rfl, rfl, rfl⟩
    rw [form]
    rfl

theorem readTerm?_again {token : Option (List Char)} {before middle later : Scope}
    {term : Option Term} (beforeRegular : before.Regular)
    (read : readTerm? token before = .ok term middle)
    (named : ∀ text ∈ token, ¬['#', '.'] <+: text) (regular : later.Regular)
    (kept : ∀ v ∈ middle.signature, v ∈ later.signature) :
    ∃ again final, readTerm? token later = .ok again final ∧
      Option.Rel (fun again term => again.sameSlot term) again term ∧
      final.signature = later.signature ∧ final.inherited = later.inherited := by
  cases token with
  | none =>
      cases read
      exact ⟨none, later, rfl, .none, rfl, rfl⟩
  | some token =>
      rcases run_map_eq_ok.mp read with ⟨value, readValue, rfl⟩
      rcases readTerm_again beforeRegular readValue (named token rfl) regular kept with
        ⟨again, final, repeats⟩
      exact ⟨some again, final, run_map_eq_ok.mpr ⟨again, repeats.read, rfl⟩,
        .some repeats.slot, repeats.signature, repeats.inherited⟩

/-! ## The tokens of an action -/

theorem splitAction_eq_ok {text subject relation : List Char} {object : Option (List Char)}
    (cut : words text = subject :: relation :: object.toList) :
    splitAction text = .ok (subject, relation, object) := by
  cases object with
  | none => simp only [splitAction, cut, Option.toList_none]
  | some object => simp only [splitAction, cut, Option.toList_some]

/-! ## Statements over the same slots -/

theorem resolve_of_sameSlot {binding : Binding} {again term : Term} {noun : String}
    (slot : again.sameSlot term) (resolved : binding.resolve term = .ok noun) :
    binding.resolve again = .ok noun := by
  cases again with
  | noun name =>
      cases term with
      | noun other =>
          have same : name = other := by
            simpa [Term.sameSlot] using slot
          rw [same]
          exact resolved
      | var v => cases slot
  | var w =>
      cases term with
      | noun other => cases slot
      | var v =>
          have same : w.id = v.id := by
            simpa [Term.sameSlot] using slot
          rw [Binding.resolve] at resolved ⊢
          rw [same]
          split at resolved
          · exact resolved
          · cases resolved

theorem resolve?_of_sameSlot {binding : Binding} {again term : Option Term}
    {noun : Option String}
    (slot : Option.Rel (fun again term => again.sameSlot term) again term)
    (resolved : Option.Rel (fun term noun => binding.resolve term = .ok noun) term noun) :
    Option.Rel (fun again noun => binding.resolve again = .ok noun) again noun := by
  cases slot with
  | none =>
      cases resolved
      exact .none
  | some slot =>
      cases resolved with
      | some resolved => exact .some (resolve_of_sameSlot slot resolved)

/-- Terms of the same slots make a statement with the same nouns, with an arrow or without. -/
theorem ground_again {binding : Binding} {directed : DirectedRelation}
    {subject subjectAgain : Term} {object objectAgain : Option Term}
    {statement : Statement Term} {effect : Effect}
    (subjectSlot : subjectAgain.sameSlot subject)
    (objectSlot : Option.Rel (fun again term => again.sameSlot term) objectAgain object)
    (stated : directed.statement? subject object = some statement)
    (grounded : binding.ground statement = .ok effect) :
    ∃ sentence, directed.statement? subjectAgain objectAgain = some sentence ∧
      binding.ground sentence = .ok effect := by
  rcases Binding.ground_eq_ok.mp grounded with ⟨subjectResolved, objectResolved, related⟩
  rcases statement?_eq_some.mp stated with ⟨straight, rfl⟩ | ⟨crossed, target, rfl, rfl⟩
  · refine ⟨_, statement?_eq_some.mpr (.inl ⟨straight, rfl⟩), ?_⟩
    exact Binding.ground_eq_ok.mpr ⟨resolve_of_sameSlot subjectSlot subjectResolved,
      resolve?_of_sameSlot objectSlot objectResolved, related⟩
  · cases objectSlot with
    | some targetSlot =>
        refine ⟨_, statement?_eq_some.mpr (.inr ⟨crossed, _, rfl, rfl⟩), ?_⟩
        exact Binding.ground_eq_ok.mpr ⟨resolve_of_sameSlot targetSlot subjectResolved,
          resolve?_of_sameSlot (.some subjectSlot) objectResolved, related⟩

/-! ## The sentence of an action -/

/-- In a child of the scope that an action leaves, its text is a sentence with the same nouns. -/
theorem readRelationalGroup_again {scope after : Scope} (regular : scope.Regular)
    {text subjectText relation : List Char} {objectText : Option (List Char)}
    (cut : words text = subjectText :: relation :: objectText.toList) {action : Action}
    (read : readAction text scope = .ok action after)
    (single : ∀ c ∈ relation, connectiveOf? c = none)
    (named : ∀ token ∈ subjectText :: objectText.toList, ¬['#', '.'] <+: token)
    {binding : Binding} {effect : Effect}
    (grounded : binding.ground action.statement = .ok effect) :
    ∃ sentence inner,
      readRelationalGroup (trim text) after.child = .ok (.sentence sentence) inner ∧
        inner.locals = [] ∧ binding.ground sentence = .ok effect := by
  rcases readAction_parts read with
    ⟨_, _, _, subject, directed, object, middle, tokens, readSubject, related, readObject, _,
      stated⟩
  rw [splitAction_eq_ok cut] at tokens
  cases tokens
  rw [List.forall_mem_cons] at named
  have middleRegular :=
    (readTerm_preserves lasting_regular subjectText scope regular _ _ readSubject).1
  have afterRegular :=
    (readTerm?_preserves lasting_regular objectText middle middleRegular _ _ readObject).1
  have objectReads := readTerm?_reads middleRegular.numbered readObject
  rcases readTerm_again regular readSubject named.1 afterRegular.child
      (fun _ => objectReads.mem) with
    ⟨subjectAgain, between, repeats⟩
  have betweenRegular := afterRegular.child.congr repeats.signature repeats.byName
  rcases readTerm?_again middleRegular readObject
      (fun token member => named.2 token (Option.mem_toList.mpr member)) betweenRegular
      (by simp [repeats.signature]) with
    ⟨objectAgain, inner, readObjectAgain, objectSlot, signature, inherited⟩
  rcases ground_again repeats.slot objectSlot stated grounded with
    ⟨sentence, statedAgain, groundedAgain⟩
  have cutAgain : words (trim text) = subjectText :: relation :: objectText.toList := by
    rw [words_trim, cut]
  have noLocals : inner.locals = [] := by
    apply Scope.locals_eq_nil (signature.trans repeats.signature)
    rw [inherited, repeats.inherited]
    rfl
  exact ⟨sentence, inner,
    readRelationalGroup_singleton cutAgain single repeats.read readObjectAgain related statedAgain,
    noLocals, groundedAgain⟩

end Script

/-! ## Worlds -/

/-- Once an effect is applied, its own statement is true. -/
theorem World.satisfies_applyEffect (world : World) {effect : Effect}
    (brief : effect.relation.duration = none) :
    (world.applyEffect effect).satisfies effect = true := by
  unfold applyEffect
  split
  · rename_i negated
    simp [satisfies, qualifies, negated]
  · rename_i positive
    simp [satisfies, qualifies, positive, brief]

theorem World.applyPending_singleton {world : World} (idle : world.pending = #[])
    (effect : Effect) :
    (world.enqueue [effect]).applyPending.1 = world.applyEffect effect := by
  rw [applyPending_enqueue idle]
  rfl

namespace Script

/--
Whatever an action does, the sentence with its text finds.  The text is read
in a child of the scope that the action leaves, declares nothing there, and is
true under the binding of the action once the effect is applied.
-/
theorem sentence_finds_action {scope after : Scope} (built : scope.Built)
    {text subject relation : List Char} {object : Option (List Char)}
    (cut : words text = subject :: relation :: object.toList) {action : Action}
    (read : readAction text scope = .ok action after)
    (single : '&' ∉ relation ∧ '/' ∉ relation)
    (named : ∀ token ∈ subject :: object.toList, ¬['#', '.'] <+: token)
    (unclosed : ')' ∉ text) {world : World} (idle : world.pending = #[])
    {binding : Binding} {effect : Effect}
    (executed : binding.ground action.statement = .ok effect) :
    ∃ condition inner,
      readSentences ('(' :: (text ++ [')'])) after.child = .ok condition inner ∧
        inner.locals = [] ∧
        condition.evaluate (world.enqueue [effect]).applyPending.1 binding = .ok true := by
  have notConnective : ∀ c ∈ relation, connectiveOf? c = none := by
    intro c member
    unfold connectiveOf?
    split
    · exact absurd member single.1
    · exact absurd member single.2
    · rfl
  rcases readRelationalGroup_again built.regular cut read notConnective named executed with
    ⟨sentence, inner, readAgain, locals, grounded⟩
  refine ⟨.sentence sentence, inner, readSentences_parenthesized unclosed readAgain, locals, ?_⟩
  have brief : effect.relation.duration = none := by
    rw [Binding.relation_ground executed]
    exact readAction_brief read
  rw [World.applyPending_singleton idle, Condition.evaluate, grounded]
  exact congrArg Except.ok (world.satisfies_applyEffect brief)

/-- A world with one fact. -/
def meadow : World :=
  { clock := { time := 1700, elapsed := 20 }
    network := Network.empty.insert ⟨0, ⟨"MARTHA", "LIKES", some "GEORGE"⟩, 1640, 0⟩
    classes := ∅
    pending := #[]
    nextId := 1
    chronicle := ∅ }

/-- An action that removes a fact, and whose arrow exchanges its sides. -/
def partingAction : List Char :=
  "X.PEOPLE !=<-LIKES Y.PEOPLE:2".toList

theorem sentence_finds_action_of_parting :
    ∃ action after condition inner,
      readAction partingAction Scope.empty = .ok action after ∧
      readSentences ('(' :: (partingAction ++ [')'])) after.child = .ok condition inner ∧
      inner.locals = [] ∧
      condition.evaluate meadow (((∅ : Binding).bind 0 "GEORGE").bind 1 "MARTHA") = .ok false ∧
      condition.evaluate
          (meadow.enqueue [⟨"MARTHA", ⟨"LIKES", true, none⟩, some "GEORGE"⟩]).applyPending.1
          (((∅ : Binding).bind 0 "GEORGE").bind 1 "MARTHA") =
        .ok true := by
  have executed :
      ((readAction partingAction).runFrom Scope.empty >>= fun first =>
        (((∅ : Binding).bind 0 "GEORGE").bind 1 "MARTHA").ground first.1.statement) =
      .ok ⟨"MARTHA", ⟨"LIKES", true, none⟩, some "GEORGE"⟩ := by
    decide +kernel
  have before :
      ((readAction partingAction).runFrom Scope.empty >>= fun first =>
        (readSentences ('(' :: (partingAction ++ [')']))).runFrom first.2.child >>= fun again =>
        again.1.evaluate meadow (((∅ : Binding).bind 0 "GEORGE").bind 1 "MARTHA")) =
      .ok false := by
    decide +kernel
  rcases bind_eq_ok.mp executed with ⟨⟨action, after⟩, read, executed⟩
  rcases bind_eq_ok.mp before with ⟨_, sameRead, before⟩
  cases read.symm.trans sameRead
  have tokens :
      words partingAction =
        "X.PEOPLE".toList :: "!=<-LIKES".toList :: (some "Y.PEOPLE:2".toList).toList := by
    decide +kernel
  have idle : meadow.pending = #[] := by
    rfl
  rcases sentence_finds_action .empty tokens (runFrom_eq_ok.mp read) (by decide) (by decide)
      (by decide) idle executed with
    ⟨condition, inner, readAgain, locals, found⟩
  rcases bind_eq_ok.mp before with ⟨_, sameAgain, before⟩
  cases (runFrom_eq_ok.mpr readAgain).symm.trans sameAgain
  exact ⟨action, after, condition, inner, runFrom_eq_ok.mp read, readAgain, locals, before, found⟩

end Script

end Fabula
