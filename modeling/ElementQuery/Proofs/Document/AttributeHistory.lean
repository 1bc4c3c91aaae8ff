/-
This file compares a list of attributes with the calls that made it. Whatever was inserted and removed, the list
answers with what was inserted last and not removed since, and its names stand in the order in which they entered.
-/

import ElementQuery.Proofs.Document.AttributeNames
import Mathlib.Data.List.Induction

namespace ElementQuery.Attributes

/-- A call that changes a list of attributes. -/
inductive Change where
  | insert (name value : String)
  | remove (name : String)
deriving DecidableEq, Repr

namespace Change

def name : Change → String
  | .insert name _ => name
  | .remove name => name

/-- What the list holds under the name behind the call. -/
def value? : Change → Option String
  | .insert _ value => some value
  | .remove _ => none

/-- The answer of the call and the list that it leaves. -/
def perform (attributes : Attributes) : Change → Option String × Attributes
  | .insert name value => attributes.insert name value
  | .remove name => attributes.remove name

variable {change : Change} {name value other : String}

theorem insert_ne_remove : Change.insert name value ≠ .remove other := nofun

theorem eq_insert_iff : change = .insert name value ↔ change.name = name ∧ change.value? = some value := by
  cases change <;> simp [Change.name, value?]

theorem name_eq_iff : change.name = name ↔ (∃ value, change = .insert name value) ∨ change = .remove name := by
  cases change <;> simp [Change.name]

end Change

/-- The answers of the calls one after the other, and the list that the last one leaves. -/
def run (attributes : Attributes) : List Change → List (Option String) × Attributes
  | [] => ([], attributes)
  | change :: rest =>
      let performed := change.perform attributes
      let later := performed.2.run rest
      (performed.1 :: later.1, later.2)

/-- Pairs are collected by an insertion each. -/
def insertions (pairs : List (String × String)) : List Change :=
  pairs.map fun pair => .insert pair.1 pair.2

section Histories

/-- A history inserts a name between two of its parts and does not remove it afterwards. -/
structure Keeps (history earlier : List Change) (name value : String) (later : List Change) : Prop where
  whole : history = earlier ++ .insert name value :: later
  kept : .remove name ∉ later

/-- A name is present when it has been inserted and not removed since. -/
def Present (history : List Change) (name : String) : Prop :=
  ∃ earlier value later, Keeps history earlier name value later

/-- A value stands under a name when the last insertion of the name brought it and no removal followed. -/
def Stands (history : List Change) (name value : String) : Prop :=
  ∃ earlier later, Keeps history earlier name value later ∧ ∀ other, .insert name other ∉ later

/-- A name enters at a place when the call there is the first to insert it since it was last absent: it was absent
before, and has been present since. -/
def EntersAt (history : List Change) (name : String) (place : Nat) : Prop :=
  ∃ earlier value later, Keeps history earlier name value later ∧ ¬ Present earlier name ∧
    earlier.length = place

/-- One name entered before another. -/
def Precedes (history : List Change) (first second : String) : Prop :=
  ∃ place other, EntersAt history first place ∧ EntersAt history second other ∧ place < other

variable {history earlier later : List Change} {change : Change} {name value : String} {place other : Nat}

/-- One more call is itself the insertion, or else it leaves the name in. -/
theorem keeps_snoc_iff : Keeps (history ++ [change]) earlier name value later ↔
    (earlier = history ∧ change = .insert name value ∧ later = []) ∨
      ∃ rest, later = rest ++ [change] ∧ Keeps history earlier name value rest ∧ change ≠ .remove name := by
  constructor
  case mp =>
    rintro ⟨whole, kept⟩
    obtain rfl | ⟨rest, last, rfl⟩ := List.eq_nil_or_concat later
    case inl =>
      obtain ⟨rfl, same⟩ := List.append_inj' whole rfl
      exact .inl ⟨rfl, List.head_eq_of_cons_eq same, rfl⟩
    case inr =>
      rw [List.concat_eq_append] at whole kept
      obtain ⟨rfl, same⟩ := List.append_inj' (whole.trans (List.append_assoc _ (_ :: rest) _).symm) rfl
      obtain rfl := List.head_eq_of_cons_eq same
      rw [List.mem_append, not_or, List.mem_singleton] at kept
      exact .inr ⟨rest, List.concat_eq_append, ⟨rfl, kept.1⟩, Ne.symm kept.2⟩
  case mpr =>
    rintro (⟨rfl, rfl, rfl⟩ | ⟨rest, rfl, ⟨rfl, kept⟩, notRemoved⟩)
    · exact ⟨rfl, List.not_mem_nil⟩
    · refine ⟨List.append_assoc _ _ _, ?_⟩
      rw [List.mem_append, not_or, List.mem_singleton]
      exact ⟨kept, Ne.symm notRemoved⟩

theorem not_present_nil : ¬ Present [] name := by
  rintro ⟨earlier, value, later, whole, -⟩
  exact List.append_ne_nil_of_right_ne_nil _ (List.cons_ne_nil _ _) whole.symm

theorem present_snoc_iff : Present (history ++ [change]) name ↔
    (∃ value, change = .insert name value) ∨ Present history name ∧ change ≠ .remove name := by
  constructor
  case mp =>
    rintro ⟨earlier, value, later, keeps⟩
    obtain ⟨-, same, -⟩ | ⟨rest, -, keeps, notRemoved⟩ := keeps_snoc_iff.1 keeps
    · exact .inl ⟨value, same⟩
    · exact .inr ⟨⟨earlier, value, rest, keeps⟩, notRemoved⟩
  case mpr =>
    rintro (⟨value, same⟩ | ⟨⟨earlier, value, rest, keeps⟩, notRemoved⟩)
    · exact ⟨history, value, [], keeps_snoc_iff.2 (.inl ⟨rfl, same, rfl⟩)⟩
    · exact ⟨earlier, value, rest ++ [change], keeps_snoc_iff.2 (.inr ⟨rest, rfl, keeps, notRemoved⟩)⟩

/-- The last call under a name decides on its value. -/
theorem stands_snoc_iff : Stands (history ++ [change]) name value ↔
    change = .insert name value ∨ Stands history name value ∧ change.name ≠ name := by
  constructor
  case mp =>
    rintro ⟨earlier, later, keeps, last⟩
    obtain ⟨-, same, -⟩ | ⟨rest, rfl, keeps, notRemoved⟩ := keeps_snoc_iff.1 keeps
    · exact .inl same
    · refine .inr ⟨⟨earlier, rest, keeps, fun other member => last other (List.mem_append_left _ member)⟩, ?_⟩
      intro same
      obtain ⟨other, rfl⟩ := (Change.name_eq_iff.1 same).resolve_right notRemoved
      exact last other (List.mem_append_right _ List.mem_cons_self)
  case mpr =>
    rintro (same | ⟨⟨earlier, rest, keeps, last⟩, elsewhere⟩)
    · exact ⟨history, [], keeps_snoc_iff.2 (.inl ⟨rfl, same, rfl⟩), fun _ => List.not_mem_nil⟩
    · have notRemoved : change ≠ .remove name := fun removed => elsewhere (removed ▸ rfl)
      refine ⟨earlier, rest ++ [change], keeps_snoc_iff.2 (.inr ⟨rest, rfl, keeps, notRemoved⟩), ?_⟩
      intro other member
      obtain member | same := List.mem_append.1 member
      · exact last other member
      · exact elsewhere (List.mem_singleton.1 same ▸ rfl)

theorem entersAt_snoc_iff : EntersAt (history ++ [change]) name place ↔
    ((∃ value, change = .insert name value) ∧ ¬ Present history name ∧ place = history.length) ∨
      EntersAt history name place ∧ change ≠ .remove name := by
  constructor
  case mp =>
    rintro ⟨earlier, value, later, keeps, absent, rfl⟩
    obtain ⟨rfl, same, -⟩ | ⟨rest, -, keeps, notRemoved⟩ := keeps_snoc_iff.1 keeps
    · exact .inl ⟨⟨value, same⟩, absent, rfl⟩
    · exact .inr ⟨⟨earlier, value, rest, keeps, absent, rfl⟩, notRemoved⟩
  case mpr =>
    rintro (⟨⟨value, same⟩, absent, rfl⟩ | ⟨⟨earlier, value, rest, keeps, absent, rfl⟩, notRemoved⟩)
    · exact ⟨history, value, [], keeps_snoc_iff.2 (.inl ⟨rfl, same, rfl⟩), absent, rfl⟩
    · exact ⟨earlier, value, rest ++ [change], keeps_snoc_iff.2 (.inr ⟨rest, rfl, keeps, notRemoved⟩), absent, rfl⟩

theorem EntersAt.present (enters : EntersAt history name place) : Present history name := by
  obtain ⟨earlier, value, later, keeps, -, -⟩ := enters
  exact ⟨earlier, value, later, keeps⟩

theorem EntersAt.lt_length (enters : EntersAt history name place) : place < history.length := by
  obtain ⟨earlier, value, later, keeps, -, rfl⟩ := enters
  rw [keeps.whole, List.length_append, List.length_cons]
  omega

/-- A name that is present has entered at some place. -/
theorem Present.exists_entersAt (present : Present history name) : ∃ place, EntersAt history name place := by
  induction history using List.reverseRec with
  | nil => exact absurd present not_present_nil
  | append_singleton history change inductionHypothesis =>
      -- either the name was there already, or the last call is where it enters
      by_cases before : Present history name ∧ change ≠ .remove name
      · obtain ⟨place, enters⟩ := inductionHypothesis before.1
        exact ⟨place, entersAt_snoc_iff.2 (.inr ⟨enters, before.2⟩)⟩
      · obtain ⟨value, inserted⟩ := (present_snoc_iff.1 present).resolve_right before
        have absent : ¬ Present history name := fun present => before ⟨present, inserted ▸ Change.insert_ne_remove⟩
        exact ⟨_, entersAt_snoc_iff.2 (.inl ⟨⟨value, inserted⟩, absent, rfl⟩)⟩

/-- A name enters at one place only. -/
theorem EntersAt.unique (enters : EntersAt history name place) (again : EntersAt history name other) :
    place = other := by
  induction history using List.reverseRec with
  | nil => exact absurd enters.present not_present_nil
  | append_singleton history change inductionHypothesis =>
      -- the last call lets in only what was absent, which no earlier call can have let in for good
      obtain ⟨-, absent, rfl⟩ | ⟨before, -⟩ := entersAt_snoc_iff.1 enters <;>
        obtain ⟨-, missing, rfl⟩ | ⟨earlier, -⟩ := entersAt_snoc_iff.1 again
      · rfl
      · exact absurd earlier.present absent
      · exact absurd before.present missing
      · exact inductionHypothesis before earlier

/-- A name is present when a value stands under it. -/
theorem present_iff_exists_stands : Present history name ↔ ∃ value, Stands history name value := by
  constructor
  case mp =>
    intro present
    induction history using List.reverseRec with
    | nil => exact absurd present not_present_nil
    | append_singleton history change inductionHypothesis =>
        obtain ⟨value, inserted⟩ | ⟨before, notRemoved⟩ := present_snoc_iff.1 present
        · exact ⟨value, stands_snoc_iff.2 (.inl inserted)⟩
        · by_cases same : change.name = name
          · obtain ⟨value, inserted⟩ := (Change.name_eq_iff.1 same).resolve_right notRemoved
            exact ⟨value, stands_snoc_iff.2 (.inl inserted)⟩
          · obtain ⟨value, stands⟩ := inductionHypothesis before
            exact ⟨value, stands_snoc_iff.2 (.inr ⟨stands, same⟩)⟩
  case mpr =>
    rintro ⟨value, earlier, later, keeps, -⟩
    exact ⟨earlier, value, later, keeps⟩

end Histories

section Runs

variable {history changes : List Change} {attributes : Attributes} {change : Change} {name value : String}

/-- Every call answers with what the list has held under its name. -/
theorem Change.perform_fst (attributes : Attributes) (change : Change) :
    (change.perform attributes).1 = attributes.get? change.name := by
  cases change with
  | insert name value => exact insert_fst attributes name value
  | remove name => exact remove_fst attributes name

theorem Change.get?_perform (distinct : attributes.names.Nodup) :
    (change.perform attributes).2.get? name =
      if change.name = name then change.value? else attributes.get? name := by
  cases change with
  | insert => exact get?_insert attributes
  | remove => exact get?_remove distinct

theorem Change.nodup_names_perform (distinct : attributes.names.Nodup) :
    (change.perform attributes).2.names.Nodup := by
  cases change with
  | insert => exact nodup_names_insert distinct
  | remove => exact nodup_names_remove distinct

/-- A list reflects the calls that made it: no name stands twice, it holds the values that stand, and its names
are in the order in which they entered. -/
structure Reflects (history : List Change) (attributes : Attributes) : Prop where
  distinct : attributes.names.Nodup
  holds : ∀ name value, attributes.get? name = some value ↔ Stands history name value
  inOrder : attributes.names.Pairwise (Precedes history)

theorem Reflects.mem_names_iff_present (reflects : Reflects history attributes) :
    name ∈ attributes.names ↔ Present history name := by
  rw [mem_names_iff, present_iff_exists_stands]
  exact exists_congr (reflects.holds name)

theorem reflects_nil : Reflects [] {} where
  distinct := List.nodup_nil
  holds := by
    intro name value
    refine iff_of_false nofun ?_
    intro stands
    exact not_present_nil (present_iff_exists_stands.2 ⟨value, stands⟩)
  inOrder := .nil

/-- Names that the call does not remove precede each other as before. -/
theorem Precedes.snoc {first second : String} (precedes : Precedes history first second)
    (firstStays : change ≠ .remove first) (secondStays : change ≠ .remove second) :
    Precedes (history ++ [change]) first second := by
  obtain ⟨place, other, enters, follows, less⟩ := precedes
  exact ⟨place, other, entersAt_snoc_iff.2 (.inr ⟨enters, firstStays⟩),
    entersAt_snoc_iff.2 (.inr ⟨follows, secondStays⟩), less⟩

/-- A name that enters comes behind all that are there. -/
theorem Present.precedes_insert {present : String} (there : Present history present)
    (absent : ¬ Present history name) : Precedes (history ++ [.insert name value]) present name := by
  obtain ⟨place, enters⟩ := there.exists_entersAt
  exact ⟨place, history.length, entersAt_snoc_iff.2 (.inr ⟨enters, Change.insert_ne_remove⟩),
    entersAt_snoc_iff.2 (.inl ⟨⟨value, rfl⟩, absent, rfl⟩), enters.lt_length⟩

theorem Reflects.inOrder_perform (reflects : Reflects history attributes) (change : Change) :
    (change.perform attributes).2.names.Pairwise (Precedes (history ++ [change])) := by
  cases change with
  | insert name value =>
      have stays : attributes.names.Pairwise (Precedes (history ++ [.insert name value])) :=
        reflects.inOrder.imp fun precedes => precedes.snoc Change.insert_ne_remove Change.insert_ne_remove
      by_cases member : name ∈ attributes.names
      · rw [Change.perform, names_insert_of_mem member]
        exact stays
      · rw [Change.perform, names_insert_of_not_mem member, List.pairwise_append]
        refine ⟨stays, List.pairwise_singleton _ _, ?_⟩
        intro present there entering same
        rw [List.mem_singleton.1 same]
        exact (reflects.mem_names_iff_present.1 there).precedes_insert
          fun present => member (reflects.mem_names_iff_present.2 present)
  | remove name =>
      -- no name that is left is the removed one, since names are distinct
      have stays : ∀ other ∈ attributes.names.erase name, Change.remove name ≠ .remove other := by
        intro other member same
        exact reflects.distinct.not_mem_erase (Change.remove.inj same ▸ member)
      rw [Change.perform, names_remove]
      exact (reflects.inOrder.sublist List.erase_sublist).imp_of_mem fun first second precedes =>
        precedes.snoc (stays _ first) (stays _ second)

/-- One more call leaves a list that reflects it with those before. -/
theorem Reflects.perform (reflects : Reflects history attributes) (change : Change) :
    Reflects (history ++ [change]) (change.perform attributes).2 where
  distinct := Change.nodup_names_perform reflects.distinct
  holds := by
    intro name value
    rw [Change.get?_perform reflects.distinct, stands_snoc_iff, Change.eq_insert_iff, ← reflects.holds]
    split
    case isTrue same => simp [same]
    case isFalse elsewhere => simp [elsewhere]
  inOrder := reflects.inOrder_perform change

/-- The list after a run reflects its calls with those before. -/
theorem Reflects.run (reflects : Reflects history attributes) (changes : List Change) :
    Reflects (history ++ changes) (attributes.run changes).2 := by
  induction changes generalizing history attributes with
  | nil => rwa [List.append_nil]
  | cons change rest inductionHypothesis =>
      rw [List.append_cons]
      exact inductionHypothesis (reflects.perform change)

theorem run_insertions (attributes : Attributes) (pairs : List (String × String)) :
    (attributes.run (insertions pairs)).2 =
      pairs.foldl (fun attributes pair => (attributes.insert pair.1 pair.2).2) attributes := by
  induction pairs generalizing attributes with
  | nil => rfl
  | cons pair rest inductionHypothesis => exact inductionHypothesis _

theorem reflects_ofPairs (pairs : List (String × String)) : Reflects (insertions pairs) (ofPairs pairs) := by
  have reflects := reflects_nil.run (insertions pairs)
  rwa [run_insertions] at reflects

/-- A call answers with what the list held under its name after the calls before it. -/
theorem run_answers (attributes : Attributes) (changes : List Change) :
    (attributes.run changes).1 =
      changes.mapIdx fun place change => (attributes.run (changes.take place)).2.get? change.name := by
  induction changes generalizing attributes with
  | nil => rfl
  | cons change rest inductionHypothesis =>
      rw [List.mapIdx_cons, run, inductionHypothesis, Change.perform_fst]
      rfl

/-- Whatever pairs a list is collected from and whatever calls follow, no name stands twice in it. It answers with
what was inserted last under a name and not removed since, and with nothing where there is no such insertion; its
entries are the values that stand so. Its names are in the order in which they entered, each at one place, and a name
that is present keeps its place. Every call has answered with what stood under its name just before, and the removal
of a name that is absent changes nothing. -/
theorem run_ofPairs_reflects (pairs : List (String × String)) (changes : List Change) :
    let history := insertions pairs ++ changes
    let last := ((ofPairs pairs).run changes).2
    last.names.Nodup ∧
    (∀ name value, last.get? name = some value ↔ Stands history name value) ∧
    (∀ name, last.get? name = none ↔ ¬ Present history name) ∧
    (∀ name value, (name, value) ∈ last.entries ↔ Stands history name value) ∧
    (∀ name, name ∈ last.names ↔ ∃! place, EntersAt history name place) ∧
    last.names.Pairwise (Precedes history) ∧
    (∀ name value, name ∈ last.names → (last.insert name value).2.names = last.names) ∧
    ((ofPairs pairs).run changes).1 =
      changes.mapIdx (fun place change =>
        ((ofPairs pairs).run (changes.take place)).2.get? change.name) ∧
    (∀ name, ¬ Present history name → last.remove name = (none, last)) := by
  intro history last
  have reflects : Reflects history last := (reflects_ofPairs pairs).run changes
  refine ⟨reflects.distinct, reflects.holds, ?absent, ?entries, ?enters, reflects.inOrder,
    fun _ _ => names_insert_of_mem, run_answers _ _, ?removal⟩
  case absent =>
    intro name
    rw [← reflects.mem_names_iff_present, names, ← lookup?_eq_none_iff]
    rfl
  case entries =>
    intro name value
    rw [← reflects.holds]
    exact (lookup?_eq_some_iff reflects.distinct).symm
  case enters =>
    intro name
    rw [reflects.mem_names_iff_present]
    constructor
    · intro present
      obtain ⟨place, enters⟩ := present.exists_entersAt
      exact ⟨place, enters, fun _ again => again.unique enters⟩
    · rintro ⟨place, enters, -⟩
      exact enters.present
  case removal =>
    intro name absent
    rw [← reflects.mem_names_iff_present] at absent
    exact remove_of_not_mem absent

/-- A name that is removed and comes back stands behind one that was there all the time and has a new value. -/
theorem run_ofPairs_reflects_of_return :
    let pairs := [("a", "1"), ("b", "2"), ("b", "3")]
    let changes := [.remove "a", .insert "b" "4", .insert "a" "5"]
    let history := insertions pairs ++ changes
    (ofPairs pairs).run changes = ([some "1", some "3", none], ⟨[("b", "4"), ("a", "5")]⟩) ∧
    Stands history "b" "4" ∧ Precedes history "b" "a" ∧ ¬ Present history "c" ∧
    (∃! place, EntersAt history "a" place) ∧
    Attributes.remove ⟨[("b", "4"), ("a", "5")]⟩ "c" = (none, ⟨[("b", "4"), ("a", "5")]⟩) := by
  intro pairs changes history
  have ran : (ofPairs pairs).run changes = ([some "1", some "3", none], ⟨[("b", "4"), ("a", "5")]⟩) := by
    decide
  obtain ⟨-, -, absent, entries, enters, inOrder, -, -, removal⟩ := run_ofPairs_reflects pairs changes
  rw [ran] at absent entries enters inOrder removal
  have missing : ¬ Present history "c" := (absent "c").1 (by decide)
  exact ⟨ran, (entries "b" "4").1 (by decide), List.rel_of_pairwise_cons inOrder (by decide), missing,
    (enters "a").1 (by decide), removal "c" missing⟩

end Runs

end ElementQuery.Attributes
