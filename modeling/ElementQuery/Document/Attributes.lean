/-
This file holds the attribute list of an element: names are distinct and stand in the order in which
they came.
-/

namespace ElementQuery

/-- Each entry is a name with its value. -/
structure Attributes where
  entries : List (String × String) := []
deriving DecidableEq, Repr

namespace Attributes

def names (attributes : Attributes) : List String := attributes.entries.map Prod.fst

/-- The value of the first entry with a name. -/
def lookup? (name : String) : List (String × String) → Option String
  | [] => none
  | (other, value) :: rest => if other = name then some value else lookup? name rest

def get? (attributes : Attributes) (name : String) : Option String :=
  lookup? name attributes.entries

def contains (attributes : Attributes) (name : String) : Bool :=
  (attributes.get? name).isSome

/-- The value of a present name is exchanged in its place, and the old value comes back. -/
def exchange? (name value : String) :
    List (String × String) → Option (String × List (String × String))
  | [] => none
  | (other, old) :: rest =>
      if other = name then some (old, (name, value) :: rest)
      else (exchange? name value rest).map fun found => (found.1, (other, old) :: found.2)

/-- A present name keeps its place and gets the new value; an absent one goes to the end. -/
def insert (attributes : Attributes) (name value : String) : Option String × Attributes :=
  match exchange? name value attributes.entries with
  | some (old, entries) => (some old, ⟨entries⟩)
  | none => (none, ⟨attributes.entries ++ [(name, value)]⟩)

/-- The first entry with a name is taken out, and its value comes back. -/
def extract? (name : String) :
    List (String × String) → Option (String × List (String × String))
  | [] => none
  | (other, value) :: rest =>
      if other = name then some (value, rest)
      else (extract? name rest).map fun found => (found.1, (other, value) :: found.2)

/-- A name that is absent leaves the list as it is. -/
def remove (attributes : Attributes) (name : String) : Option String × Attributes :=
  match extract? name attributes.entries with
  | some (value, entries) => (some value, ⟨entries⟩)
  | none => (none, attributes)

/-- Pairs are inserted one after the other, so that the last value of a name wins. -/
def ofPairs (pairs : List (String × String)) : Attributes :=
  pairs.foldl (fun attributes pair => (attributes.insert pair.1 pair.2).2) {}

theorem lookup?_isSome {name : String} {entries : List (String × String)} :
    (lookup? name entries).isSome = true ↔ name ∈ entries.map Prod.fst := by
  induction entries with
  | nil => simp [lookup?]
  | cons entry rest inductionHypothesis =>
      rw [lookup?]
      split
      · rename_i same
        simp [same]
      · rename_i different
        rw [inductionHypothesis]
        simp [Ne.symm different]

/-- An exchange yields the value that a look-up would have yielded. -/
theorem exchange?_old (name value : String) (entries : List (String × String)) :
    (exchange? name value entries).map Prod.fst = lookup? name entries := by
  induction entries with
  | nil => rfl
  | cons entry rest inductionHypothesis =>
      rw [exchange?, lookup?]
      split
      · rfl
      · rw [← inductionHypothesis, Option.map_map]
        rfl

/-- Taking an entry out yields the value that a look-up would have yielded. -/
theorem extract?_value (name : String) (entries : List (String × String)) :
    (extract? name entries).map Prod.fst = lookup? name entries := by
  induction entries with
  | nil => rfl
  | cons entry rest inductionHypothesis =>
      rw [extract?, lookup?]
      split
      · rfl
      · rw [← inductionHypothesis, Option.map_map]
        rfl

theorem insert_fst (attributes : Attributes) (name value : String) :
    (attributes.insert name value).1 = attributes.get? name := by
  rw [get?, ← exchange?_old name value, insert]
  cases exchange? name value attributes.entries <;> rfl

theorem remove_fst (attributes : Attributes) (name : String) :
    (attributes.remove name).1 = attributes.get? name := by
  rw [get?, ← extract?_value name, remove]
  cases extract? name attributes.entries <;> rfl

end Attributes

end ElementQuery
