/-
This file shows that the references which are written for characters are read as these characters again.
-/

import ElementQuery.Markup.Reference
import ElementQuery.Proofs.Text.Search

namespace ElementQuery.Markup

variable {name rest : List Char} {c d : Char} {inAttribute : Bool}

/-- A reference stands for its character wherever it is written. -/
theorem decode_reference (solid : ';' ∉ name) (known : resolve? name = some c) :
    decode ('&' :: (name ++ ';' :: rest)) = c :: decode rest := by
  have found : reference? (name ++ ';' :: rest) = some (c, rest) := by
    rw [reference?, Text.cutAt?_mark solid, Option.bind_some, known]
    rfl
  rw [decode, if_pos rfl]
  split
  · rename_i character after same
    rw [found] at same
    obtain ⟨rfl, rfl⟩ := Prod.mk.inj (Option.some.inj same)
    rfl
  · rename_i missing
    rw [found] at missing
    cases missing

theorem decode_cons (plain : c ≠ '&') : decode (c :: rest) = c :: decode rest := by
  rw [decode, if_neg plain]

/-- What is written for a character is read as the character. -/
theorem decode_escapeChar (inAttribute : Bool) (c : Char) (rest : List Char) :
    decode (escapeChar inAttribute c ++ rest) = c :: decode rest := by
  have named : ∀ name : String, ';' ∉ name.toList → resolve? name.toList = some c →
      decode (("&" ++ name ++ ";").toList ++ rest) = c :: decode rest := by
    intro name solid known
    have shape : ("&" ++ name ++ ";").toList ++ rest = '&' :: (name.toList ++ ';' :: rest) := by
      simp [String.toList_append]
    rw [shape]
    exact decode_reference solid known
  unfold escapeChar
  split
  · rename_i same
    exact named "amp" (by decide) (same ▸ by decide)
  · rename_i plain
    split
    · rename_i same
      exact named "nbsp" (by decide) (same ▸ by decide)
    · split
      · rename_i same
        simp only [Bool.and_eq_true, decide_eq_true_eq] at same
        exact named "quot" (by decide) (same.1 ▸ by decide)
      · split
        · rename_i same
          simp only [Bool.and_eq_true, decide_eq_true_eq] at same
          exact named "lt" (by decide) (same.1 ▸ by decide)
        · split
          · rename_i same
            simp only [Bool.and_eq_true, decide_eq_true_eq] at same
            exact named "gt" (by decide) (same.1 ▸ by decide)
          · exact decode_cons plain

/-- What is written for a text is read as the text, whatever is written behind it. -/
theorem decode_escape_append (inAttribute : Bool) (text rest : List Char) :
    decode (escape inAttribute text ++ rest) = text ++ decode rest := by
  induction text with
  | nil => rfl
  | cons c text inductionHypothesis =>
      rw [escape, List.flatMap_cons, List.append_assoc, decode_escapeChar]
      exact congrArg (c :: ·) inductionHypothesis

theorem decode_escape (inAttribute : Bool) (text : List Char) :
    decode (escape inAttribute text) = text := by
  have whole := decode_escape_append inAttribute text []
  rw [List.append_nil] at whole
  rw [whole, decode, List.append_nil]

/-- The characters that are always written as references, apart from the ampersand with which a reference
begins. -/
def marks (inAttribute : Bool) : List Char :=
  if inAttribute then ['\u00a0', '\x22'] else ['\u00a0', '<', '>']

/-- A character is written as it stands or as one of five references. -/
theorem escapeChar_eq (inAttribute : Bool) (c : Char) : escapeChar inAttribute c = [c] ∨
    escapeChar inAttribute c ∈ ["&amp;", "&nbsp;", "&quot;", "&lt;", "&gt;"].map String.toList := by
  unfold escapeChar
  repeat' split
  all_goals simp

/-- No mark is written as it stands. -/
theorem not_mem_escape (mark : c ∈ marks inAttribute) (text : List Char) :
    c ∉ escape inAttribute text := by
  have unwritten : (marks inAttribute).all (fun c => c ∉ escapeChar inAttribute c) = true := by
    cases inAttribute <;> decide
  have foreign : (["&amp;", "&nbsp;", "&quot;", "&lt;", "&gt;"].map String.toList).all
      (fun name => (marks inAttribute).all (· ∉ name)) = true := by
    cases inAttribute <;> decide
  rw [List.all_iff_forall_prop] at unwritten
  intro member
  obtain ⟨d, -, inside⟩ := List.mem_flatMap.1 member
  rcases escapeChar_eq inAttribute d with bare | named
  · rw [bare] at inside
    obtain rfl := List.mem_singleton.1 inside
    exact unwritten c mark (bare ▸ inside)
  · have strange := List.all_eq_true.1 foreign _ named
    rw [List.all_iff_forall_prop] at strange
    exact strange c mark inside

/-- Outside of attributes no angle bracket is written for a character. -/
theorem not_mem_escape_bracket (text : List Char) : '<' ∉ escape false text :=
  not_mem_escape (by decide) text

/-- In attributes no quote is written for a character. -/
theorem not_mem_escape_quote (text : List Char) : '\x22' ∉ escape true text :=
  not_mem_escape (by decide) text

/-- Something is written for every character. -/
theorem escape_ne_nil {text : List Char} (nonempty : text ≠ []) : escape inAttribute text ≠ [] := by
  intro none
  apply nonempty
  rw [← decode_escape inAttribute text, none, decode]

/-- Something is read for every text. -/
theorem decode_ne_nil {text : List Char} (nonempty : text ≠ []) : decode text ≠ [] := by
  cases text with
  | nil => exact absurd rfl nonempty
  | cons c rest =>
      rw [decode]
      split
      · split <;> exact List.cons_ne_nil _ _
      · exact List.cons_ne_nil _ _

/-- In text and in attributes, what is written for a text is read as the text, and it holds none of the
characters that have to be written as references. -/
theorem decodeText_escape (inAttribute : Bool) (text : String) :
    decodeText (String.ofList (escape inAttribute text.toList)) = text ∧
      (marks inAttribute).Disjoint (escape inAttribute text.toList) := by
  constructor
  · rw [decodeText, String.toList_ofList, decode_escape, String.ofList_toList]
  · intro c mark
    exact not_mem_escape mark text.toList

end ElementQuery.Markup
