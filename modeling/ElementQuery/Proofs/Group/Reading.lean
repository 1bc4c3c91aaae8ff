/-
This file shows what every group that is read has in common: attribute names in small letters, classes
without blanks and progressions of 32 bits.
-/

import ElementQuery.Proofs.Group.Positions
import ElementQuery.Proofs.Selector.Progressions
import Mathlib.Data.List.TakeWhile

namespace ElementQuery.Group

/-- The classes and the attribute names of a compound as they are read. -/
structure Compound.Written (compound : Compound) : Prop where
  classes : ∀ name ∈ compound.classes, name ≠ "" ∧ ∀ c ∈ name.toList, Text.isAsciiBlank c = false
  attributes : ∀ filter ∈ compound.attributes, Text.lower filter.name = filter.name

/-- The argument of a pseudo-class as it is read. -/
def PseudoClass.Written : PseudoClass → Prop
  | .nth _ (.progression held) => held.Bounded
  | .negation compound => compound.Written
  | _ => True

/-- A step as it is read. -/
structure Step.Written (step : Step) : Prop where
  compound : step.compound.Written
  pseudos : ∀ pseudo ∈ step.pseudos, pseudo.Written

/-- A fragment that makes a step no less like one that is read. -/
def Fragment.Written : Fragment → Prop
  | .hasClass name => name ≠ "" ∧ ∀ c ∈ name.toList, Text.isAsciiBlank c = false
  | .attribute filter => Text.lower filter.name = filter.name
  | .pseudo held => held.Written
  | .star | .id _ | .nothing => True

theorem written_default : ({} : Compound).Written := ⟨by simp, by simp⟩

theorem forall_mem_append_singleton {A : Type} {holds : A → Prop} {members : List A} {last : A}
    (others : ∀ member ∈ members, holds member) (fits : holds last) :
    ∀ member ∈ members ++ [last], holds member :=
  List.forall_mem_append.2 ⟨others, List.forall_mem_singleton.2 fits⟩

/-- Fragments that are added leave a step as if read. -/
theorem Step.Written.add {step : Step} (written : step.Written) :
    ∀ {fragment : Fragment}, fragment.Written → (step.add fragment).Written
  | .star, _ | .id _, _ | .nothing, _ =>
      ⟨⟨written.compound.classes, written.compound.attributes⟩, written.pseudos⟩
  | .hasClass _, fits =>
      ⟨⟨forall_mem_append_singleton written.compound.classes fits, written.compound.attributes⟩,
        written.pseudos⟩
  | .attribute _, fits =>
      ⟨⟨written.compound.classes, forall_mem_append_singleton written.compound.attributes fits⟩,
        written.pseudos⟩
  | .pseudo _, fits =>
      ⟨written.compound, forall_mem_append_singleton written.pseudos fits⟩

/-- No character of a name is a blank. -/
theorem isAsciiBlank_of_isNameChar {c : Char} (inName : isNameChar c = true) :
    Text.isAsciiBlank c = false := by
  apply Bool.eq_false_iff.2
  intro blank
  simp only [Text.isAsciiBlank, Bool.or_eq_true, beq_iff_eq] at blank
  rcases blank with (((rfl | rfl) | rfl) | rfl) | rfl <;> exact absurd inName (by decide)

theorem of_leadingName?_eq_some {text rest : List Char} {name : String}
    (read : leadingName? text = some (name, rest)) :
    name ≠ "" ∧ ∀ c ∈ name.toList, Text.isAsciiBlank c = false := by
  unfold leadingName? at read
  dsimp only at read
  split at read
  case isTrue => cases read
  rename_i nonempty
  obtain ⟨rfl, -⟩ := Prod.mk.inj (Option.some.inj read)
  constructor
  · simpa using nonempty
  · intro c member
    rw [String.toList_ofList] at member
    exact isAsciiBlank_of_isNameChar (List.mem_takeWhile_imp member)

/-- The name of a filter is put into small letters. -/
theorem lower_of_mem_read {text : List Char} {filter : AttributeFilter}
    (read : (AttributeFilter.read text).value = some filter) :
    Text.lower filter.name = filter.name := by
  unfold AttributeFilter.read at read
  split at read
  · rw [Warned.pure_value] at read
    split at read
    · cases read
    · obtain rfl := Option.some.inj read
      exact Text.lower_lower _
  · dsimp only at read
    split at read
    · cases read
    · obtain rfl := Option.some.inj read
      exact Text.lower_lower _

theorem bounded_of_ofFormula? {text : List Char} {progression : Progression}
    (read : Progression.ofFormula? text = some progression) : progression.Bounded := by
  obtain ⟨-, -, -, -, step, -, offset⟩ := Progression.ofFormula?_eq_some_iff.1 read
  exact ⟨step.natAbs_le, offset.natAbs_le⟩

/-- The progression of an argument that is read is bounded. -/
theorem written_nth (kin : Kin) (text : List Char) :
    (PseudoClass.nth kin (Argument.read text).value).Written := by
  unfold Argument.read
  cases read : Argument.ofText? text with
  | none => trivial
  | some argument =>
      cases argument with
      | position k => trivial
      | every => trivial
      | progression held =>
          show held.Bounded
          unfold Argument.ofText? at read
          dsimp only at read
          generalize (if Progression.compact Text.isBlank text = "odd".toList then _ else _ :
            List Char) = formula at read
          split at read
          · cases read
          · split at read
            · cases read
            · obtain ⟨found, known, same⟩ := Option.map_eq_some_iff.1 read
              cases same
              exact bounded_of_ofFormula? known

section Fragments

variable {readNegated : List Char → Warned Compound}

/-- A pseudo-class is as if read when what it negates is. -/
theorem written_namedPseudoClass? (negated : ∀ text, (readNegated text).value.Written) {name : String}
    {argument : List Char} {pseudo : Warned PseudoClass}
    (named : namedPseudoClass? readNegated name argument = some pseudo) : pseudo.value.Written := by
  unfold namedPseudoClass? at named
  split at named
  · cases named
    exact written_nth .any argument
  · split at named
    · cases named
      exact written_nth .sameTag argument
    · split at named
      · cases named
        trivial
      · split at named
        · cases named
          exact negated argument
        · obtain ⟨found, known, rfl⟩ := Option.map_eq_some_iff.1 named
          have listed := List.mem_of_find?_eq_some known
          simp only [plainPseudoClasses, List.mem_cons, List.not_mem_nil, or_false] at listed
          rcases listed with rfl | rfl | rfl | rfl | rfl | rfl | rfl | rfl | rfl | rfl <;> trivial

theorem written_fragment_read (negated : ∀ text, (readNegated text).value.Written) (name : String)
    (argument : List Char) :
    (((PseudoClass.read readNegated name argument).value.map Fragment.pseudo).getD
      .nothing).Written := by
  unfold PseudoClass.read
  cases named : namedPseudoClass? readNegated (Text.lower name) argument with
  | none => trivial
  | some pseudo => exact written_namedPseudoClass? negated named

theorem written_fragment? (negated : ∀ text, (readNegated text).value.Written) {text rest : List Char}
    {fragment : Warned Fragment} (read : fragment? readNegated text = some (fragment, rest)) :
    fragment.value.Written := by
  unfold fragment? at read
  split at read
  · cases read
    trivial
  · obtain ⟨found, -, same⟩ := Option.map_eq_some_iff.1 read
    cases same
    trivial
  · obtain ⟨found, named, same⟩ := Option.map_eq_some_iff.1 read
    cases same
    exact of_leadingName?_eq_some named
  · obtain ⟨found, -, same⟩ := Option.map_eq_some_iff.1 read
    cases same
    show ((((AttributeFilter.read found.1).value).map Fragment.attribute).getD .nothing).Written
    cases filter : (AttributeFilter.read found.1).value with
    | none => trivial
    | some filter => exact lower_of_mem_read ‹_›
  · unfold pseudoFragment? at read
    obtain ⟨found, -, read⟩ := Option.bind_eq_some_iff.1 read
    dsimp only at read
    split at read
    · obtain ⟨parts, -, same⟩ := Option.map_eq_some_iff.1 read
      cases same
      exact written_fragment_read negated _ _
    · cases read
      exact written_fragment_read negated _ _
  · cases read

/-- Adding fragments keeps a step as if read. -/
theorem Step.Written.addFragments (negated : ∀ text, (readNegated text).value.Written)
    (word : List Char) (moves : Nat) {step : Step} (written : step.Written) (text : List Char) :
    (Group.addFragments readNegated word moves step text).value.Written := by
  induction moves generalizing step text with
  | zero => exact written
  | succ moves inductionHypothesis =>
      cases text with
      | nil => exact written
      | cons c text =>
          rw [Group.addFragments]
          · split
            · rename_i fragment rest read
              exact inductionHypothesis (written.add (written_fragment? negated read)) rest
            · exact written
          · intro empty
            cases empty

end Fragments

/-- What is negated is as if read when the step in it is. -/
theorem written_readNegation {readStep : List Char → Warned Step}
    (steps : ∀ text, (readStep text).value.Written) (text : List Char) :
    (readNegation readStep text).value.Written := by
  unfold readNegation
  dsimp only
  split
  · refine ⟨by simp, ?_⟩
    intro filter member
    rw [List.mem_singleton.1 member]
    show Text.lower "id" = "id"
    decide
  · have known := (steps (Text.trim text)).compound
    rw [Warned.bind_value]
    split
    · exact known
    · exact known

/-- Every step that is read has classes without blanks, names in small letters and bounded
progressions, at every depth of negations. -/
theorem written_readStepWithin (levels : Nat) (combinator : Combinator) (word : List Char) :
    (readStepWithin combinator levels word).value.Written := by
  induction levels generalizing combinator word with
  | zero => exact ⟨written_default, fun _ member => absurd member List.not_mem_nil⟩
  | succ levels inductionHypothesis =>
      rw [readStepWithin]
      apply Step.Written.addFragments
      · exact written_readNegation fun text => inductionHypothesis .descendant text
      · refine ⟨?_, fun _ member => absurd member List.not_mem_nil⟩
        split
        · exact written_default
        · exact ⟨by simp, by simp⟩

theorem written_readWords (source : String) (words : List (List Char)) (pending : Option Combinator) :
    ∀ step ∈ (readWords source pending words).value.1, step.Written := by
  induction words generalizing pending with
  | nil => simp [readWords]
  | cons word words inductionHypothesis =>
      rw [readWords]
      split
      · exact inductionHypothesis _
      · intro step member
        rcases List.mem_cons.1 member with rfl | later
        · exact written_readStepWithin _ _ word
        · exact inductionHypothesis none step later

/-- Every step of every group that is read is as if read. -/
theorem written_readGroups (known : List String) (texts : List (List Char)) :
    ∀ group ∈ (readGroups known texts).value, ∀ step ∈ group.steps, step.Written := by
  induction texts generalizing known with
  | nil => simp [readGroups]
  | cons text texts inductionHypothesis =>
      rw [readGroups]
      split
      · exact inductionHypothesis known
      · intro group member
        rcases List.mem_cons.1 member with rfl | later
        · exact written_readWords _ _ none
        · exact inductionHypothesis _ group later

theorem written_parse {query : String} {group : Group} (read : group ∈ (parse query).value) :
    ∀ step ∈ group.steps, step.Written :=
  written_readGroups [] _ group read

end ElementQuery.Group
