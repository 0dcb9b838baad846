import Fabula.Text.Upper
import Mathlib.Data.List.Basic

/-!
# Capital letters

Capital forms are made of characters that are their own capital forms, so that a
text in capital letters stays as it is.  For the letters in runs this is read off
the runs: the capitals of a run lie apart from the letters of every other run, or
fall between them.
-/

namespace Fabula.Text

/-- A character is its own capital form. -/
def IsCapital (c : Char) : Prop :=
  upperChar c = [c]

instance : DecidablePred IsCapital := fun c =>
  inferInstanceAs (Decidable (upperChar c = [c]))

namespace Upper

/-! ## Runs -/

/-- The last capital of a run. -/
def Run.lastCapital (run : Run) : Nat :=
  run.target + (run.last - run.first)

/--
The capitals of a run are no letters of another: they lie before or behind them,
or are even where those are odd.
-/
def Run.clears (run other : Run) : Bool :=
  Nat.blt run.lastCapital other.first || Nat.blt other.last run.target ||
    ((run.stride == 2 || run.first == run.last) && other.stride == 2 &&
      (run.target + other.first) % 2 == 1)

theorem Run.capital?_eq_some {run : Run} {code capital : Nat} :
    run.capital? code = some capital ↔
      run.first ≤ code ∧ code ≤ run.last ∧ (code - run.first) % run.stride = 0 ∧
        capital = run.target + (code - run.first) := by
  simp only [capital?, Option.ite_none_right_eq_some, Bool.and_eq_true, decide_eq_true_eq,
    beq_iff_eq, Option.some.injEq, and_assoc, eq_comm (a := capital)]

theorem Run.capital?_of_clears {run other : Run} (clears : run.clears other) {code capital : Nat}
    (found : run.capital? code = some capital) : other.capital? capital = none := by
  rcases capital?_eq_some.mp found with ⟨notBefore, notBehind, inStep, rfl⟩
  rw [Option.eq_none_iff_forall_ne_some]
  intro again foundAgain
  rcases capital?_eq_some.mp foundAgain with ⟨first, last, otherInStep, _⟩
  simp only [Run.clears, lastCapital, Bool.or_eq_true, Bool.and_eq_true, Nat.blt_eq,
    beq_iff_eq] at clears
  rcases clears with (before | behind) | ⟨⟨stride | single, otherStride⟩, parity⟩
  · omega
  · omega
  · rw [stride] at inStep
    rw [otherStride] at otherInStep
    omega
  · rw [otherStride] at otherInStep
    omega

theorem runs_clear : (runs.all fun run => runs.all run.clears) = true := by
  decide +kernel

theorem expansions_clear :
    (runs.all fun run => expansions.all fun entry =>
      Nat.blt entry.1 run.target || Nat.blt run.lastCapital entry.1) = true := by
  decide +kernel

/-- Only single letters have their capitals in the ASCII range. -/
theorem runs_to_ascii :
    ∀ run ∈ runs, run.target < 0x80 → run.first = run.last ∧ IsCapital (Char.ofNat run.target) := by
  decide +kernel

theorem ofCode_of_mem_runs {run : Run} (member : run ∈ runs) {code capital : Nat}
    (found : run.capital? code = some capital) : ofCode capital = [Char.ofNat capital] := by
  have clear := List.all_eq_true.mp (List.all_eq_true.mp runs_clear run member)
  have apart := List.all_eq_true.mp (List.all_eq_true.mp expansions_clear run member)
  have noRun : runs.findSome? (·.capital? capital) = none := by
    rw [List.findSome?_eq_none_iff]
    intro other otherMember
    exact Run.capital?_of_clears (clear other otherMember) found
  have noExpansion : expansions.lookup capital = none := by
    rw [List.lookup_eq_none_iff]
    intro entry entryMember
    rcases Run.capital?_eq_some.mp found with ⟨first, last, _, rfl⟩
    have outside := apart entry entryMember
    simp only [Run.lastCapital, Bool.or_eq_true, Nat.blt_eq] at outside
    simp only [bne_iff_ne]
    omega
  rw [ofCode, noRun]
  simp only [noExpansion]

end Upper

/-! ## Characters -/

/-- What is no character is read as zero, which is a capital like any other sign. -/
theorem isCapital_ofNat {code : Nat} (large : 0x80 ≤ code)
    (fixed : Upper.ofCode code = [Char.ofNat code]) : IsCapital (Char.ofNat code) := by
  by_cases valid : code.isValidChar
  · have sameCode : (Char.ofNat code).toNat = code := by
      rw [Char.ofNat, dif_pos valid]
      rfl
    rw [IsCapital, upperChar, sameCode, if_neg (by omega), fixed]
  · have zero : Char.ofNat code = '\x00' := by
      rw [Char.ofNat, dif_neg valid]
      rfl
    rw [zero]
    decide

theorem isCapital_of_mem_runs {run : Upper.Run} (member : run ∈ Upper.runs) {code capital : Nat}
    (found : run.capital? code = some capital) : IsCapital (Char.ofNat capital) := by
  by_cases large : 0x80 ≤ capital
  · exact isCapital_ofNat large (Upper.ofCode_of_mem_runs member found)
  · rcases Upper.Run.capital?_eq_some.mp found with ⟨first, last, _, rfl⟩
    rcases Upper.runs_to_ascii run member (by omega) with ⟨single, isCapital⟩
    have atTarget : run.target + (code - run.first) = run.target := by
      omega
    rw [atTarget]
    exact isCapital

theorem isCapital_of_mem_expansions :
    ∀ entry ∈ Upper.expansions, ∀ capital ∈ entry.2, IsCapital (Char.ofNat capital) := by
  decide +kernel

theorem isCapital_toUpper : ∀ code < 0x80, IsCapital (Char.ofNat code).toUpper := by
  decide +kernel

/-- The capital form of a character is made of capitals. -/
theorem isCapital_of_mem_upperChar {c d : Char} (member : d ∈ upperChar c) : IsCapital d := by
  by_cases ascii : c.toNat < 0x80
  · rw [upperChar, if_pos ascii, List.mem_singleton] at member
    rw [member, ← Char.ofNat_toNat c]
    exact isCapital_toUpper c.toNat ascii
  · have coded : upperChar c = Upper.ofCode c.toNat := if_neg ascii
    rw [coded, Upper.ofCode] at member
    cases inRun : Upper.runs.findSome? (·.capital? c.toNat) with
    | some capital =>
        rcases List.exists_of_findSome?_eq_some inRun with ⟨run, inRuns, found⟩
        simp only [inRun, List.mem_singleton] at member
        rw [member]
        exact isCapital_of_mem_runs inRuns found
    | none =>
        cases expanded : Upper.expansions.lookup c.toNat with
        | some capitals =>
            rcases List.lookup_eq_some_iff.mp expanded with ⟨before, after, split, _⟩
            simp only [inRun, expanded] at member
            rcases List.mem_map.mp member with ⟨capital, inCapitals, rfl⟩
            refine isCapital_of_mem_expansions (c.toNat, capitals) ?_ capital inCapitals
            rw [split]
            exact List.mem_append_right _ List.mem_cons_self
        | none =>
            simp only [inRun, expanded, List.mem_singleton, Char.ofNat_toNat] at member
            rw [member, IsCapital, coded, Upper.ofCode, inRun]
            simp only [expanded, Char.ofNat_toNat]

/-! ## Texts -/

theorem isCapital_of_mem_upper {text : List Char} {c : Char} (member : c ∈ upper text) :
    IsCapital c := by
  rcases List.mem_flatMap.mp member with ⟨_, _, inCapitals⟩
  exact isCapital_of_mem_upperChar inCapitals

/-- A text of capitals stays as it is. -/
theorem upper_eq_self {text : List Char} (capital : ∀ c ∈ text, IsCapital c) :
    upper text = text := by
  induction text with
  | nil => rfl
  | cons c rest ih =>
      rw [List.forall_mem_cons] at capital
      rw [upper, List.flatMap_cons, ← upper, capital.1, ih capital.2]
      rfl

end Fabula.Text
