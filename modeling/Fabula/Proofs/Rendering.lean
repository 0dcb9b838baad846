import Fabula.Lexicon
import Fabula.Proofs.Frames
import Fabula.Proofs.Safety
import Fabula.Proofs.Trace

/-!
# Which reports can be rendered

The check before the first tick is content with a relation that has an entry in
the lexicon; a report needs a phrase.  The two differ for an entry without
phrases, and only there: all facts that a run records are either opening facts
or have the relation of some action, which has passed the check.
-/

namespace Fabula

open Outcome

namespace Lexicon

/-- A name has an entry, but no phrase. -/
def Mute (lexicon : Lexicon) (name : String) : Prop :=
  lexicon[name]? = some []

theorem firstPhrase_eq_none_iff {lexicon : Lexicon} {name : String} :
    lexicon.firstPhrase name = none ↔ name ∉ lexicon ∨ lexicon.Mute name := by
  rw [firstPhrase, Mute, ← Std.TreeMap.isSome_getElem?_iff_mem]
  cases lexicon[name]? with
  | none => simp
  | some phrases => cases phrases <;> simp

end Lexicon

/-! ## Reports -/

namespace Report

theorem sentence_eq_error {lexicon : Lexicon} {fact : Fact} {error : Error} :
    sentence lexicon fact = .error error ↔
      lexicon.firstPhrase fact.key.relation = none ∧
        error = .missingPhrase .relation fact.key.relation fact.render := by
  rw [sentence]
  cases lexicon.firstPhrase fact.key.relation <;> simp [eq_comm]

/-- A report fails only at a fact that it lists, if the relation of this fact has no phrase. -/
theorem exists_of_render_eq_error {lexicon : Lexicon} {world : World} {error : Error}
    (failed : render lexicon world = .error error) :
    ∃ frame ∈ world.frames, ∃ fact ∈ frame.asserted,
      lexicon.firstPhrase fact.key.relation = none ∧
        error = .missingPhrase .relation fact.key.relation fact.render := by
  rcases bind_eq_error.mp failed with visited | ⟨_, _, returned⟩
  · rcases exists_of_mapM_eq_error visited with ⟨frame, inFrames, refused⟩
    rcases bind_eq_error.mp refused with visited | ⟨_, _, returned⟩
    · rcases exists_of_mapM_eq_error visited with ⟨fact, inFrame, refused⟩
      exact ⟨frame, inFrames, fact, inFrame, sentence_eq_error.mp refused⟩
    · cases returned
  · cases returned

theorem renders_iff {lexicon : Lexicon} {world : World} :
    (∃ report, render lexicon world = .ok report) ↔
      ∀ frame ∈ world.frames, ∀ fact ∈ frame.asserted,
        lexicon.firstPhrase fact.key.relation ≠ none := by
  constructor
  · rintro ⟨report, rendered⟩ frame inFrames fact inFrame unphrased
    rcases bind_eq_ok.mp rendered with ⟨paragraphs, visited, _⟩
    rcases exists_of_mapM_eq_ok visited inFrames with ⟨paragraph, _, shown⟩
    rcases bind_eq_ok.mp shown with ⟨sentences, told, _⟩
    rcases exists_of_mapM_eq_ok told inFrame with ⟨text, _, spoken⟩
    rw [sentence_eq_error.mpr ⟨unphrased, rfl⟩] at spoken
    cases spoken
  · intro phrased
    cases outcome : render lexicon world with
    | ok report => exact ⟨report, rfl⟩
    | error cause =>
        rcases exists_of_render_eq_error outcome with
          ⟨frame, inFrames, fact, inFrame, unphrased, _⟩
        exact absurd unphrased (phrased frame inFrames fact inFrame)

theorem render_eq_error_of_key {lexicon : Lexicon} {world : World} {key : Fact.Key}
    (unphrased : lexicon.firstPhrase key.relation = none)
    (listed : ∀ frame ∈ world.frames, ∀ fact ∈ frame.asserted, fact.key = key)
    (some : ∃ frame ∈ world.frames, frame.asserted ≠ []) :
    render lexicon world = .error (.missingPhrase .relation key.relation key.render) := by
  cases outcome : render lexicon world with
  | ok report =>
      rcases some with ⟨frame, inFrames, nonempty⟩
      rcases List.exists_mem_of_ne_nil _ nonempty with ⟨fact, inFrame⟩
      have spoken := renders_iff.mp ⟨report, outcome⟩ frame inFrames fact inFrame
      rw [listed frame inFrames fact inFrame] at spoken
      exact absurd unphrased spoken
  | error cause =>
      rcases exists_of_render_eq_error outcome with ⟨frame, inFrames, fact, inFrame, _, rfl⟩
      rw [Fact.render, listed frame inFrames fact inFrame]

end Report

/-! ## Keys of one kind -/

section Kind

variable {kind : Fact.Key → Prop}

/-- A change brings in no keys but those of one kind. -/
def Change.Within (kind : Fact.Key → Prop) : Change → Prop
  | assert key => kind key
  | queue effects => ∀ effect ∈ effects, effect.relation.negated = false → kind effect.key
  | _ => True

theorem Change.within_ofEffect {effect : Effect}
    (asserts : effect.relation.negated = false → kind effect.key) :
    ∀ change ∈ Change.ofEffect effect, change.Within kind := by
  rw [Change.ofEffect]
  split
  · simp [Within]
  · rename_i positive
    simpa [Within] using asserts (Bool.eq_false_iff.mpr positive)

namespace World

/-- All keys that a world records, and all that wait to be asserted, are of one kind. -/
structure Confined (kind : Fact.Key → Prop) (world : World) : Prop where
  recorded : ∀ fact, world.Records fact → kind fact.key
  waiting :
    ∀ effect ∈ world.pending.toList, effect.relation.negated = false → kind effect.key

theorem confined_of_facts {world : World} (idle : world.pending = #[])
    (unwritten : world.chronicle = ∅)
    (facts : ∀ key fact, world.get? key = some fact → kind fact.key) :
    world.Confined kind := by
  constructor
  · rintro fact (⟨key, found⟩ | ⟨time, snapshot, filed, _⟩)
    · exact facts key fact found
    · simp [unwritten] at filed
  · simp [idle]

theorem Confined.apply {world : World} (confined : world.Confined kind) {change : Change}
    (within : change.Within kind) : (change.apply world).Confined kind := by
  cases change with
  | define name members => exact ⟨confined.recorded, confined.waiting⟩
  | advance minutes => exact ⟨confined.recorded, confined.waiting⟩
  | retract key =>
      refine ⟨?_, confined.waiting⟩
      intro fact recorded
      exact confined.recorded fact (records_retractFact recorded)
  | snapshot =>
      refine ⟨?_, confined.waiting⟩
      intro fact recorded
      exact confined.recorded fact (records_snapshot recorded)
  | assert key =>
      refine ⟨?_, confined.waiting⟩
      intro fact recorded
      rcases records_assertFact recorded with rfl | old
      · exact within
      · exact confined.recorded fact old
  | clear => exact ⟨confined.recorded, by simp [Change.apply]⟩
  | queue effects =>
      refine ⟨confined.recorded, ?_⟩
      intro effect member
      have listed : effect ∈ (world.pending ++ effects).toList := member
      rw [Array.toList_appendList] at listed
      rcases List.mem_append.mp listed with old | new
      · exact confined.waiting effect old
      · exact within effect new

theorem Confined.change {world : World} (confined : world.Confined kind)
    {changes : List Change} (within : ∀ change ∈ changes, change.Within kind) :
    (world.change changes).Confined kind :=
  change_preserves (fun change member _ earlier => earlier.apply (within change member)) confined

end World

namespace Rule

/-- All keys that a rule asserts, for whatever binding it fires, are of one kind. -/
def Within (kind : Fact.Key → Prop) (rule : Rule) : Prop :=
  ∀ binding effects, rule.effects binding = .ok effects →
    ∀ effect ∈ effects, effect.relation.negated = false → kind effect.key

theorem within_of_ground {rule : Rule}
    (grounds : ∀ action ∈ rule.actions, ∀ binding effect,
      Binding.ground binding action.statement = .ok effect →
        effect.relation.negated = false → kind effect.key) :
    rule.Within kind := by
  intro binding effects grounded effect member positive
  rcases exists_of_mem_mapM grounded member with ⟨action, inRule, grounded⟩
  exact grounds action inRule binding effect grounded positive

end Rule

namespace Simulation

theorem advance_confined {before : Simulation} (confined : before.world.Confined kind) :
    before.advance.1.world.Confined kind := by
  rw [advance_eq_change]
  apply confined.change
  simp only [List.forall_mem_cons, List.mem_flatMap]
  refine ⟨trivial, trivial, trivial, ?_⟩
  rintro change ⟨effect, waits, inEffect⟩
  exact Change.within_ofEffect (confined.waiting effect waits) change inEffect

theorem perform_confined {step : Step} {before after : Simulation} {reply : Reply}
    (within : ∀ rule ∈ before.rules, rule.Within kind)
    (confined : before.world.Confined kind)
    (performed : step.perform before = .ok reply after) : after.world.Confined kind := by
  cases step with
  | terminate =>
      rcases run_map_eq_ok.mp performed with ⟨summary, ended, _⟩
      rcases terminate_eq_ok.mp ended with ⟨_, rfl⟩
      exact advance_confined confined
  | tick =>
      rcases run_map_eq_ok.mp performed with ⟨report, ticked, _⟩
      rcases tick_eq_ok.mp ticked with ⟨firings, stage, tested, _, rfl⟩
      rcases testRules_eq_ok tested with ⟨fired, lists, allTested, met, changed, _⟩
      have queued : (Change.queue lists.flatten).Within kind := by
        intro effect member
        rcases exists_of_demands met member with
          ⟨rule, bindings, inFired, binding, _, effects, grounded, inEffects⟩
        exact within rule (allTested.of_mem inFired).1 binding effects grounded effect inEffects
      rw [withStage, changed]
      exact (advance_confined confined).apply queued

theorem Trace.confined {before after : Simulation} {steps : List Step}
    {replies : List Reply} {passed : List Simulation}
    (trace : Trace before steps replies passed after)
    (within : ∀ rule ∈ before.rules, rule.Within kind)
    (confined : before.world.Confined kind) : after.world.Confined kind := by
  induction trace with
  | nil => exact confined
  | cons performed _ ih =>
      apply ih
      · rcases perform_flushes performed with ⟨_, _, _, _, changed⟩
        rw [changed]
        exact within
      · exact perform_confined within confined performed

end Simulation

end Kind

namespace Simulation

/-! ## Runs -/

theorem mem_lexicon_of_checkLexicon {rules : List Rule} {lexicon : Lexicon}
    (checked : checkLexicon rules lexicon = .ok ()) :
    ∀ rule ∈ rules, ∀ action ∈ rule.actions, action.statement.relation.name ∈ lexicon := by
  intro rule inRules action inRule
  have accepted :=
    forM_eq_ok.mp checked action (List.mem_flatMap.mpr ⟨rule, inRules, inRule⟩)
  rcases bind_eq_ok.mp accepted with ⟨_, _, accepted⟩
  rcases bind_eq_ok.mp accepted with ⟨_, required, _⟩
  rw [requireEntry] at required
  split at required
  · rename_i present
    exact present
  · cases required

/-- Rules assert a relation if one of their actions does. -/
def Asserts (rules : List Rule) (relation : String) : Prop :=
  ∃ rule ∈ rules, ∃ action ∈ rule.actions,
    action.statement.relation.negated = false ∧ action.statement.relation.name = relation

/-- The relation of a key has a phrase, or rules assert it. -/
def Expected (rules : List Rule) (lexicon : Lexicon) (key : Fact.Key) : Prop :=
  lexicon.firstPhrase key.relation ≠ none ∨ Asserts rules key.relation

theorem within_expected (rules : List Rule) (lexicon : Lexicon) :
    ∀ rule ∈ rules, rule.Within (Expected rules lexicon) := by
  intro rule inRules
  apply Rule.within_of_ground
  intro action inRule binding effect grounded positive
  have same := Binding.relation_ground grounded
  rw [same] at positive
  exact .inr ⟨rule, inRules, action, inRule, positive, congrArg Relation.name same.symm⟩

theorem run_confined {kind : Fact.Key → Prop} {count : Nat} {before after : Simulation}
    {reports : List Tick} (within : ∀ rule ∈ before.rules, rule.Within kind)
    (confined : before.world.Confined kind) (ran : run count before = .ok reports after) :
    after.world.Confined kind := by
  rcases run_trace ran with ⟨summary, passed, last, trace, ended⟩
  rcases terminate_eq_ok.mp ended with ⟨_, rfl⟩
  exact advance_confined (trace.confined within confined)

/--
A fact without a phrase that a run lists is no opening fact, so that its
relation is that of an action, which has passed the check.
-/
theorem mute_of_unphrased {lexicon : Lexicon} {count : Nat} {before after : Simulation}
    {reports : List Tick} (checked : checkLexicon before.rules lexicon = .ok ())
    (idle : before.world.pending = #[]) (unwritten : before.world.chronicle = ∅)
    (phrased : ∀ key fact, before.world.get? key = some fact →
      lexicon.firstPhrase fact.key.relation ≠ none)
    (ran : run count before = .ok reports after) :
    ∀ frame ∈ after.world.frames, ∀ fact ∈ frame.asserted,
      lexicon.firstPhrase fact.key.relation = none →
        lexicon.Mute fact.key.relation ∧ Asserts before.rules fact.key.relation := by
  have confined : before.world.Confined (Expected before.rules lexicon) :=
    World.confined_of_facts idle unwritten fun key fact found => .inl (phrased key fact found)
  have finallyConfined := run_confined (within_expected before.rules lexicon) confined ran
  intro frame inFrames fact inFrame unphrased
  have recorded := World.records_of_mem_frames inFrames inFrame
  rcases finallyConfined.recorded fact recorded with spoken | asserted
  · exact absurd unphrased spoken
  · refine ⟨?_, asserted⟩
    rcases asserted with ⟨rule, inRules, action, inRule, _, same⟩
    have present := mem_lexicon_of_checkLexicon checked rule inRules action inRule
    rw [same] at present
    rcases Lexicon.firstPhrase_eq_none_iff.mp unphrased with absent | mute
    · exact absurd present absent
    · exact mute

/--
Rules that could be read, in a simulation that could be set up over a world
whose facts have phrases, run without errors.  The report of the run can be
rendered unless it lists a fact whose relation has an entry without phrases; it
then names the relation, which some action asserts.
-/
theorem run_renders_unless_mute {text : String} {rules : List Rule} {world : World}
    {lexicon : Lexicon} {configuration : Configuration} {source : Source}
    {simulation : Simulation}
    (read : Script.readRules text = .ok rules)
    (created : create rules world lexicon configuration source = .ok simulation)
    (idle : world.pending = #[]) (unwritten : world.chronicle = ∅)
    (phrased : ∀ key fact, world.get? key = some fact →
      lexicon.firstPhrase fact.key.relation ≠ none)
    (count : Nat) :
    ∃ reports after, run count simulation = .ok reports after ∧
      ((∃ report, Report.render lexicon after.world = .ok report) ↔
        ∀ frame ∈ after.world.frames, ∀ fact ∈ frame.asserted,
          ¬lexicon.Mute fact.key.relation) ∧
      ((∀ relation, Asserts rules relation → ¬lexicon.Mute relation) →
        ∃ report, Report.render lexicon after.world = .ok report) ∧
      ∀ error, Report.render lexicon after.world = .error error →
        ∃ frame ∈ after.world.frames, ∃ fact ∈ frame.asserted,
          lexicon.Mute fact.key.relation ∧ Asserts rules fact.key.relation ∧
            error = .missingPhrase .relation fact.key.relation fact.render := by
  have supported := create_supported (Script.readRules_closed read) created
  rcases run_yields count simulation supported with ⟨reports, after, ran, _, _⟩
  rcases create_eq_ok.mp created with ⟨_, checked, _, rfl⟩
  have muted := mute_of_unphrased checked idle unwritten phrased ran
  refine ⟨reports, after, ran, ?_, ?_, ?_⟩
  · rw [Report.renders_iff]
    constructor
    · intro spoken frame inFrames fact inFrame mute
      exact spoken frame inFrames fact inFrame
        (Lexicon.firstPhrase_eq_none_iff.mpr (.inr mute))
    · intro unmuted frame inFrames fact inFrame unphrased
      exact unmuted frame inFrames fact inFrame (muted frame inFrames fact inFrame unphrased).1
  · intro unmuted
    apply Report.renders_iff.mpr
    intro frame inFrames fact inFrame unphrased
    rcases muted frame inFrames fact inFrame unphrased with ⟨mute, asserted⟩
    exact unmuted _ asserted mute
  · intro error failed
    rcases Report.exists_of_render_eq_error failed with
      ⟨frame, inFrames, fact, inFrame, unphrased, named⟩
    rcases muted frame inFrames fact inFrame unphrased with ⟨mute, asserted⟩
    exact ⟨frame, inFrames, fact, inFrame, mute, asserted, named⟩

/-- A rule that fires whenever it is late. -/
def bedtimeRule : String :=
  "MARTHA ASLEEP; 10,0: [T > 1700]"

/-- A world without facts, in the evening. -/
def bedroom : World :=
  { clock := { time := 1700, elapsed := 0 }
    network := .empty
    classes := ∅
    pending := #[]
    nextId := 0
    chronicle := ∅ }

theorem get?_bedroom (key : Fact.Key) : bedroom.get? key = none := by
  simp [World.get?, bedroom]

theorem definitions_bedtimeRule :
    Script.definitions (Script.normalize ("$RULE " ++ bedtimeRule).toList) =
      [bedtimeRule.toList] := by
  cbv

theorem run_renders_unless_mute_at_bedtime :
    ∃ rules lexicon simulation,
      Script.readRules ("$RULE " ++ bedtimeRule) = .ok rules ∧
      Lexicon.read "MARTHA: Martha\nTIRED: is tired\nASLEEP: is asleep" = .ok lexicon ∧
      create rules (bedroom.assertFact ⟨"MARTHA", "TIRED", none⟩) lexicon
          Configuration.default (.ofStep 0 0) =
        .ok simulation ∧
      ∀ count, ∃ reports after report,
        run count simulation = .ok reports after ∧
        Report.render lexicon after.world = .ok report := by
  have accepted :
      ([bedtimeRule.toList].mapM Script.readRule >>= fun rules =>
        Lexicon.read "MARTHA: Martha\nTIRED: is tired\nASLEEP: is asleep" >>= fun lexicon =>
        create rules (bedroom.assertFact ⟨"MARTHA", "TIRED", none⟩) lexicon
            Configuration.default (.ofStep 0 0) >>= fun _ =>
        .ok ((rules.flatMap (·.actions)).all fun action =>
          (lexicon.firstPhrase action.statement.relation.name).isSome,
          lexicon.firstPhrase "TIRED")) = .ok (true, some "IS TIRED") := by
    decide +kernel
  rw [← definitions_bedtimeRule] at accepted
  rcases bind_eq_ok.mp accepted with ⟨rules, read, accepted⟩
  rcases bind_eq_ok.mp accepted with ⟨lexicon, lexiconRead, accepted⟩
  rcases bind_eq_ok.mp accepted with ⟨simulation, created, spoken⟩
  simp only [Except.ok.injEq, Prod.mk.injEq] at spoken
  have phrased : ∀ key fact,
      (bedroom.assertFact ⟨"MARTHA", "TIRED", none⟩).get? key = some fact →
        lexicon.firstPhrase fact.key.relation ≠ none := by
    intro key fact found
    rw [World.get?_assertFact, get?_bedroom] at found
    split at found
    · cases found
      show lexicon.firstPhrase "TIRED" ≠ none
      rw [spoken.2]
      exact Option.some_ne_none _
    · cases found
  have unmuted : ∀ relation, Asserts rules relation → ¬lexicon.Mute relation := by
    rintro relation ⟨rule, inRules, action, inRule, _, rfl⟩ mute
    have phrased :=
      List.all_eq_true.mp spoken.1 action (List.mem_flatMap.mpr ⟨rule, inRules, inRule⟩)
    rw [Lexicon.firstPhrase_eq_none_iff.mpr (.inr mute)] at phrased
    cases phrased
  refine ⟨rules, lexicon, simulation, read, lexiconRead, created, ?_⟩
  intro count
  rcases run_renders_unless_mute read created rfl rfl phrased count with
    ⟨reports, after, ran, _, renders, _⟩
  rcases renders unmuted with ⟨report, rendered⟩
  exact ⟨reports, after, report, ran, rendered⟩

/--
The check accepts a rule with a relation whose entry has no phrases, although
the report of a run of two ticks then fails.
-/
theorem accepted_run_does_not_render :
    ∃ rules lexicon simulation reports after,
      Script.readRules ("$RULE " ++ bedtimeRule) = .ok rules ∧
      Lexicon.read "MARTHA: Martha\nASLEEP:" = .ok lexicon ∧
      create rules bedroom lexicon Configuration.default (.ofStep 0 0) = .ok simulation ∧
      bedroom.pending = #[] ∧ bedroom.chronicle = ∅ ∧ (∀ key, bedroom.get? key = none) ∧
      run 2 simulation = .ok reports after ∧
      Report.render lexicon after.world =
        .error (.missingPhrase .relation "ASLEEP" "MARTHA ASLEEP") := by
  have accepted :
      ([bedtimeRule.toList].mapM Script.readRule >>= fun rules =>
        Lexicon.read "MARTHA: Martha\nASLEEP:" >>= fun lexicon =>
        create rules bedroom lexicon Configuration.default (.ofStep 0 0) >>= fun simulation =>
        .ok ((rules.flatMap (·.actions)).map (·.statement), lexicon["ASLEEP"]?,
          succeeded (ticks 2 simulation),
          ((endState (ticks 2 simulation)).world.get? ⟨"MARTHA", "ASLEEP", none⟩).isSome)) =
        .ok ([⟨.noun "MARTHA", .plain "ASLEEP", none⟩], some [], true, true) := by
    decide +kernel
  rw [← definitions_bedtimeRule] at accepted
  rcases bind_eq_ok.mp accepted with ⟨rules, read, accepted⟩
  rcases bind_eq_ok.mp accepted with ⟨lexicon, lexiconRead, accepted⟩
  rcases bind_eq_ok.mp accepted with ⟨simulation, created, accepted⟩
  simp only [Except.ok.injEq, Prod.mk.injEq] at accepted
  rcases accepted with ⟨statements, mute, ended, asleep⟩
  rcases exists_of_succeeded ended with ⟨reports, last, ticked⟩
  rw [ticked] at asleep
  have ran : run 2 simulation = .ok reports last.advance.1 :=
    run_bind_eq_ok.mpr ⟨reports, last, ticked, run_bind_eq_ok.mpr ⟨_, _, rfl, rfl⟩⟩
  refine ⟨rules, lexicon, simulation, reports, last.advance.1, read, lexiconRead, created,
    rfl, rfl, get?_bedroom, ran, ?_⟩
  have sameRules : simulation.rules = rules := by
    rcases create_eq_ok.mp created with ⟨_, _, _, rfl⟩
    rfl
  have within : ∀ rule ∈ simulation.rules, rule.Within (· = ⟨"MARTHA", "ASLEEP", none⟩) := by
    rw [sameRules]
    intro rule inRules
    apply Rule.within_of_ground
    intro action inRule binding effect grounded _
    have stated : action.statement ∈ (rules.flatMap (·.actions)).map (·.statement) :=
      List.mem_map_of_mem (List.mem_flatMap.mpr ⟨rule, inRules, inRule⟩)
    rw [statements, List.mem_singleton] at stated
    rw [stated] at grounded
    cases grounded
    rfl
  have confined : simulation.world.Confined (· = ⟨"MARTHA", "ASLEEP", none⟩) := by
    rcases create_eq_ok.mp created with ⟨_, _, _, rfl⟩
    apply World.confined_of_facts rfl rfl
    intro key fact found
    rw [get?_bedroom] at found
    cases found
  have recorded := (run_confined within confined ran).recorded
  refine @Report.render_eq_error_of_key _ _ ⟨"MARTHA", "ASLEEP", none⟩ ?_ ?_ ?_
  · exact Lexicon.firstPhrase_eq_none_iff.mpr (.inr mute)
  · intro frame inFrames fact inFrame
    exact recorded fact (World.records_of_mem_frames inFrames inFrame)
  · have filed :
        last.advance.1.world.chronicle[last.world.clock.time]? =
          some last.world.network.facts := by
      rw [(advance_flushes last).chronicle, Std.TreeMap.getElem?_insert_self]
    have occupied : last.world.network.facts ≠ [] := by
      rcases Option.isSome_iff_exists.mp asleep with ⟨fact, found⟩
      exact List.ne_nil_of_mem (Network.mem_facts.mpr ⟨_, found⟩)
    exact World.exists_asserted filed occupied

end Simulation

end Fabula
