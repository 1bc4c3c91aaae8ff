/-
This file shows that attribute lists answer as maps do, and that the names in them stay distinct.
-/

import ElementQuery.Document.Attributes
import Mathlib.Data.List.Nodup

namespace ElementQuery.Attributes

variable {name other value old : String} {entries changed : List (String × String)}

theorem lookup?_append (before after : List (String × String)) :
    lookup? name (before ++ after) = (lookup? name before).or (lookup? name after) := by
  induction before with
  | nil => rfl
  | cons entry before inductionHypothesis =>
      rw [List.cons_append, lookup?, lookup?, inductionHypothesis]
      split <;> rfl

theorem lookup?_eq_none_iff : lookup? name entries = none ↔ name ∉ entries.map Prod.fst := by
  rw [← lookup?_isSome]
  cases lookup? name entries <;> simp

theorem mem_names_iff {attributes : Attributes} :
    name ∈ attributes.names ↔ ∃ value, attributes.get? name = some value := by
  rw [names, ← lookup?_isSome, Option.isSome_iff_exists]
  rfl

/-- Where no name stands twice, every entry is the one that answers under its name. -/
theorem lookup?_eq_some_iff (distinct : (entries.map Prod.fst).Nodup) :
    lookup? name entries = some value ↔ (name, value) ∈ entries := by
  induction entries with
  | nil => simp [lookup?]
  | cons entry rest inductionHypothesis =>
      rw [List.map_cons, List.nodup_cons] at distinct
      rw [lookup?, List.mem_cons, ← inductionHypothesis distinct.2]
      split
      · rename_i same
        subst same
        rw [lookup?_eq_none_iff.2 distinct.1]
        simp [Prod.ext_iff, eq_comm]
      · rename_i different
        simp [Prod.ext_iff, Ne.symm different]

theorem exchange?_eq_none_iff : exchange? name value entries = none ↔ name ∉ entries.map Prod.fst := by
  rw [← lookup?_eq_none_iff, ← exchange?_old name value, Option.map_eq_none_iff]

theorem extract?_eq_none_iff : extract? name entries = none ↔ name ∉ entries.map Prod.fst := by
  rw [← lookup?_eq_none_iff, ← extract?_value, Option.map_eq_none_iff]

/-- An exchange replaces the value of one entry. -/
theorem exchange?_eq_some (exchanged : exchange? name value entries = some (old, changed)) :
    ∃ before after, entries = before ++ (name, old) :: after ∧
      changed = before ++ (name, value) :: after ∧ name ∉ before.map Prod.fst := by
  induction entries generalizing changed with
  | nil => cases exchanged
  | cons entry rest inductionHypothesis =>
      rw [exchange?] at exchanged
      split at exchanged
      · rename_i same
        obtain ⟨rfl, rfl⟩ := Prod.mk.inj (Option.some.inj exchanged)
        exact ⟨[], rest, by rw [← same]; rfl, rfl, List.not_mem_nil⟩
      · rename_i different
        obtain ⟨⟨found, later⟩, inner, shape⟩ := Option.map_eq_some_iff.1 exchanged
        obtain ⟨rfl, rfl⟩ := Prod.mk.inj shape
        obtain ⟨before, after, rfl, rfl, fresh⟩ := inductionHypothesis inner
        refine ⟨entry :: before, after, rfl, rfl, ?_⟩
        simpa [Ne.symm different] using fresh

/-- The given name answers with the new value, and every other as before. -/
theorem get?_insert (attributes : Attributes) :
    (attributes.insert name value).2.get? other =
      if name = other then some value else attributes.get? other := by
  unfold insert
  cases exchanged : exchange? name value attributes.entries with
  | none =>
      have absent := lookup?_eq_none_iff.2 (exchange?_eq_none_iff.1 exchanged)
      simp only [get?, lookup?_append, lookup?]
      grind
  | some found =>
      obtain ⟨before, after, whole, rest, fresh⟩ := exchange?_eq_some exchanged
      simp only [get?, whole, rest, lookup?_append, lookup?]
      split
      · rename_i same
        subst same
        rw [lookup?_eq_none_iff.2 fresh]
        rfl
      · rfl

/-- A name that is absent goes to the end. -/
theorem insert_of_not_mem {attributes : Attributes} (fresh : name ∉ attributes.names) :
    (attributes.insert name value).2 = ⟨attributes.entries ++ [(name, value)]⟩ := by
  rw [insert, exchange?_eq_none_iff.2 fresh]

/-- A name that is present keeps its place. -/
theorem names_insert_of_mem {attributes : Attributes} (member : name ∈ attributes.names) :
    (attributes.insert name value).2.names = attributes.names := by
  unfold insert
  cases exchanged : exchange? name value attributes.entries with
  | none => exact absurd member (exchange?_eq_none_iff.1 exchanged)
  | some found =>
      obtain ⟨before, after, whole, rest, -⟩ := exchange?_eq_some exchanged
      simp [names, whole, rest]

theorem names_insert_of_not_mem {attributes : Attributes} (fresh : name ∉ attributes.names) :
    (attributes.insert name value).2.names = attributes.names ++ [name] := by
  rw [insert_of_not_mem fresh, names, List.map_append]
  rfl

theorem nodup_names_insert {attributes : Attributes} (distinct : attributes.names.Nodup) :
    (attributes.insert name value).2.names.Nodup := by
  by_cases member : name ∈ attributes.names
  · rw [names_insert_of_mem member]
    exact distinct
  · rw [names_insert_of_not_mem member]
    exact List.concat_eq_append ▸ distinct.concat member

theorem nodup_names_ofPairs (pairs : List (String × String)) : (ofPairs pairs).names.Nodup := by
  have folded : ∀ attributes : Attributes, attributes.names.Nodup →
      (pairs.foldl (fun attributes pair => (attributes.insert pair.1 pair.2).2)
        attributes).names.Nodup := by
    induction pairs with
    | nil => exact fun _ distinct => distinct
    | cons pair rest inductionHypothesis =>
        exact fun _ distinct => inductionHypothesis _ (nodup_names_insert distinct)
  exact folded {} List.nodup_nil

/-- Pairs with distinct names stay as they are. -/
theorem ofPairs_of_nodup {pairs : List (String × String)} (distinct : (pairs.map Prod.fst).Nodup) :
    ofPairs pairs = ⟨pairs⟩ := by
  have folded : ∀ entries : List (String × String), ((entries ++ pairs).map Prod.fst).Nodup →
      pairs.foldl (fun attributes pair => (attributes.insert pair.1 pair.2).2) ⟨entries⟩ =
        (⟨entries ++ pairs⟩ : Attributes) := by
    clear distinct
    induction pairs with
    | nil => exact fun entries _ => by rw [List.append_nil]; rfl
    | cons pair rest inductionHypothesis =>
        intro entries distinct
        have fresh : pair.1 ∉ entries.map Prod.fst := by
          intro member
          rw [List.map_append] at distinct
          exact (List.nodup_append.1 distinct).2.2 _ member _ List.mem_cons_self rfl
        have moved : entries ++ pair :: rest = entries ++ [pair] ++ rest := List.append_cons _ _ _
        rw [List.foldl_cons, @insert_of_not_mem _ _ ⟨entries⟩ fresh, moved]
        rw [moved] at distinct
        exact inductionHypothesis _ distinct
  exact folded [] distinct

/-- The entry that is taken out stood between those that stay. -/
theorem extract?_eq_some (extracted : extract? name entries = some (old, changed)) :
    ∃ before after, entries = before ++ (name, old) :: after ∧ changed = before ++ after ∧
      name ∉ before.map Prod.fst := by
  induction entries generalizing changed with
  | nil => cases extracted
  | cons entry rest inductionHypothesis =>
      rw [extract?] at extracted
      split at extracted
      · rename_i same
        obtain ⟨rfl, rfl⟩ := Prod.mk.inj (Option.some.inj extracted)
        exact ⟨[], rest, by rw [← same]; rfl, rfl, List.not_mem_nil⟩
      · rename_i different
        obtain ⟨⟨found, later⟩, inner, shape⟩ := Option.map_eq_some_iff.1 extracted
        obtain ⟨rfl, rfl⟩ := Prod.mk.inj shape
        obtain ⟨before, after, rfl, rfl, fresh⟩ := inductionHypothesis inner
        refine ⟨entry :: before, after, rfl, rfl, ?_⟩
        simpa [Ne.symm different] using fresh

theorem remove_of_not_mem {attributes : Attributes} (absent : name ∉ attributes.names) :
    attributes.remove name = (none, attributes) := by
  rw [remove, extract?_eq_none_iff.2 absent]

theorem names_remove (attributes : Attributes) :
    (attributes.remove name).2.names = attributes.names.erase name := by
  cases extracted : extract? name attributes.entries with
  | none =>
      have absent : name ∉ attributes.names := extract?_eq_none_iff.1 extracted
      rw [remove_of_not_mem absent, List.erase_of_not_mem absent]
  | some found =>
      obtain ⟨before, after, whole, rest, fresh⟩ := extract?_eq_some extracted
      have left : (attributes.remove name).2.entries = before ++ after := by
        rw [remove, extracted, ← rest]
      rw [names, names, left, whole, List.map_append, List.map_append, List.map_cons,
        List.erase_append_right _ fresh, List.erase_cons_head]

theorem nodup_names_remove {attributes : Attributes} (distinct : attributes.names.Nodup) :
    (attributes.remove name).2.names.Nodup := by
  rw [names_remove]
  exact distinct.erase name

/-- The removed name does not answer any more when the names were distinct, and every other answers
as before. -/
theorem get?_remove {attributes : Attributes} (distinct : attributes.names.Nodup) :
    (attributes.remove name).2.get? other =
      if name = other then none else attributes.get? other := by
  unfold remove
  cases extracted : extract? name attributes.entries with
  | none =>
      have absent := lookup?_eq_none_iff.2 (extract?_eq_none_iff.1 extracted)
      simp only [get?]
      grind
  | some found =>
      obtain ⟨before, after, whole, rest, -⟩ := extract?_eq_some extracted
      rw [names, whole, List.map_append, List.map_cons] at distinct
      simp only [get?, rest, whole, lookup?_append, lookup?]
      split
      · rename_i same
        subst same
        rw [lookup?_eq_none_iff.2 (by grind), lookup?_eq_none_iff.2 (by grind)]
        rfl
      · rfl

end ElementQuery.Attributes
