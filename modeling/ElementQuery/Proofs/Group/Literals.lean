/-
This file shows that every text can be written as an expression that is read as literals alone and is the text
wherever it is evaluated.
-/

import ElementQuery.Group.PathText
import ElementQuery.Path.Evaluation
import ElementQuery.Proofs.Path.Phrase

namespace ElementQuery

namespace Path

variable {context : Context} {texts : List String}

/-- Literals in a row are their texts. -/
theorem evaluateAll_literals (context : Context) (texts : List String) :
    evaluateAll context (texts.map Expression.literal) = .ok (texts.map Value.text) := by
  induction texts with
  | nil => rfl
  | cons text texts inductionHypothesis =>
      rw [List.map_cons, evaluateAll, evaluate, inductionHypothesis]
      rfl

/-- Several literals are joined by a call. -/
theorem evaluate_concat (several : 2 ≤ texts.length) :
    evaluate context (.call "concat" (texts.map .literal)) = .ok (.text (String.join texts)) := by
  have known : Function.ofName? "concat" = some .concat := rfl
  have accepts : Function.concat.arity.accepts (texts.map Expression.literal).length = true := by
    simp [Function.arity, Arity.accepts, several]
  have letters : (texts.map Value.text).map (Value.toText context.document) = texts := by
    rw [List.map_map]
    exact List.map_id texts
  rw [evaluate, known]
  dsimp only
  rw [if_pos accepts, evaluateAll_literals]
  change Function.apply context .concat (texts.map .text) = _
  change Except.ok (Value.text (String.join ((texts.map Value.text).map
    (Value.toText context.document)))) = _
  rw [letters]

end Path

namespace Group

open ElementQuery.Path

/-- A separator that stands between commas is one more member. -/
theorem intercalate_intersperse (separator : String) (texts : List String) :
    String.intercalate (", " ++ separator ++ ", ") texts =
      String.intercalate ", " (texts.intersperse separator) := by
  induction texts with
  | nil => rfl
  | cons text texts inductionHypothesis =>
      cases texts with
      | nil => rfl
      | cons next texts =>
          have several : (next :: texts).intersperse separator ≠ [] := by
            cases texts <;> simp
          rw [List.intersperse_cons_cons, String.intercalate_cons_cons,
            String.intercalate_cons_cons, String.intercalate_cons_of_ne_nil several,
            inductionHypothesis]
          simp [String.append_assoc]

theorem map_intersperse {A B : Type} (change : A → B) (separator : A) (members : List A) :
    (members.intersperse separator).map change =
      (members.map change).intersperse (change separator) := by
  induction members with
  | nil => rfl
  | cons member members inductionHypothesis =>
      cases members with
      | nil => rfl
      | cons next members =>
          rw [List.intersperse_cons_cons, List.map_cons, List.map_cons, inductionHypothesis]
          rfl

theorem mem_intersperse {A : Type} {separator member : A} {members : List A}
    (found : member ∈ members.intersperse separator) : member = separator ∨ member ∈ members := by
  induction members with
  | nil => cases found
  | cons first members inductionHypothesis =>
      cases members with
      | nil => exact .inr found
      | cons next members =>
          rw [List.intersperse_cons_cons, List.mem_cons, List.mem_cons] at found
          rcases found with same | same | later
          · exact .inr (by simp [same])
          · exact .inl same
          · exact (inductionHypothesis later).imp_right (List.mem_cons_of_mem _)

/-- The pieces of a text with their separator between them are the text. -/
theorem flatten_intersperse_splitOnP (c : Char) (text : List Char) :
    ((text.splitOnP (· == c)).intersperse [c]).flatten = text :=
  List.intercalate_splitOn c

theorem two_le_length_splitOnP {c : Char} {text : List Char} (member : c ∈ text) :
    2 ≤ (text.splitOnP (· == c)).length := by
  induction text with
  | nil => cases member
  | cons d rest inductionHypothesis =>
      obtain ⟨piece, more, shape, cut⟩ := Text.exists_splitOnP_cons (· == c) d rest
      rw [cut]
      split
      · simp
      · rename_i other
        have later : c ∈ rest := by
          rcases List.mem_cons.1 member with rfl | later
          · exact absurd (beq_self_eq_true _) other
          · exact later
        simpa [shape] using inductionHypothesis later

/-- The texts between the apostrophes of a text, with the apostrophes between them. -/
def quotedParts (text : String) : List String :=
  ((text.toList.splitOnP (· == '\x27')).map String.ofList).intersperse "'"

theorem join_quotedParts (text : String) : String.join (quotedParts text) = text := by
  apply String.toList_inj.1
  have letters : (text.toList.splitOnP (· == '\x27')).map (String.toList ∘ String.ofList) =
      text.toList.splitOnP (· == '\x27') := by
    simp [Function.comp_def]
  have apostrophe : "'".toList = ['\x27'] := rfl
  rw [String.toList_join, List.flatMap_def, quotedParts, map_intersperse, List.map_map, letters,
    apostrophe]
  exact flatten_intersperse_splitOnP '\x27' text.toList

theorem two_le_length_quotedParts {text : String} (member : '\x27' ∈ text.toList) :
    2 ≤ (quotedParts text).length := by
  have several := two_le_length_splitOnP member
  rw [quotedParts, List.length_intersperse, List.length_map]
  omega

/-- A text with apostrophes and quotes is put together from the pieces between the apostrophes. -/
theorem phrase_concat (text : String) :
    Phrase .primary ("concat(" ++ String.intercalate ", \"'\", "
      ((text.toList.splitOnP (· == '\x27')).map fun piece => "'" ++ String.ofList piece ++ "'") ++
      ")") (.call "concat" ((quotedParts text).map .literal)) := by
  have plain : ∀ piece ∈ text.toList.splitOnP (· == '\x27'), '\x27' ∉ piece := by
    intro piece inside quote
    have other := Text.isBreak_eq_false_of_mem_splitOnP inside _ quote
    exact absurd other (by decide)
  rw [quotedParts]
  generalize text.toList.splitOnP (· == '\x27') = pieces at plain
  have apostrophe : Phrase .or "\"'\"" (.literal "'") :=
    (Phrase.quoted (.inl rfl) rfl (by decide)).loosen (by decide)
  have others : ∀ piece ∈ pieces,
      Phrase .or ("'" ++ String.ofList piece ++ "'") (.literal (String.ofList piece)) := by
    intro piece inside
    have phrase := @Phrase.quoted '\x27' ("'" ++ String.ofList piece ++ "'") (String.ofList piece)
      (.inr rfl) (by simp) (by simpa using plain piece inside)
    exact phrase.loosen (by decide)
  have called := @Phrase.call "concat" (by decide) (by decide)
    ((pieces.map fun piece =>
      ("'" ++ String.ofList piece ++ "'", Expression.literal (String.ofList piece))).intersperse
        ("\"'\"", .literal "'")) (by
      intro argument found
      rcases mem_intersperse found with rfl | inside
      · exact apostrophe
      · obtain ⟨piece, known, rfl⟩ := List.mem_map.1 inside
        exact others piece known)
  rw [map_intersperse, map_intersperse, List.map_map, List.map_map, ← intercalate_intersperse] at called
  rw [map_intersperse, List.map_map]
  exact called

/-- A text is written as one literal, or as a call that joins several, and is the text in every context. -/
theorem exists_phrase_literal (text : String) : ∃ expression, Phrase .primary (literal text) expression ∧
    ((∃ part, expression = .literal part) ∨
      ∃ parts : List String, expression = .call "concat" (parts.map .literal)) ∧
    ∀ context, evaluate context expression = .ok (.text text) := by
  unfold literal
  split
  · rename_i plain
    exact ⟨.literal text, Phrase.quoted (.inr rfl) (by simp) (by simpa using plain), .inl ⟨text, rfl⟩,
      fun _ => rfl⟩
  · rename_i single
    split
    · rename_i plain
      exact ⟨.literal text, Phrase.quoted (.inl rfl) (by simp) (by simpa using plain), .inl ⟨text, rfl⟩,
        fun _ => rfl⟩
    · have member : '\x27' ∈ text.toList := by simpa using single
      refine ⟨_, phrase_concat text, .inr ⟨quotedParts text, rfl⟩, fun context => ?_⟩
      rw [evaluate_concat (two_le_length_quotedParts member), join_quotedParts]

/-- Every text can be written as an expression that is accepted, consists of one literal or of a call that
joins several, and evaluates to exactly the text at every node of every document. -/
theorem parse_literal (text : String) : ∃ expression, Path.parse (literal text) = .ok expression ∧
    ((∃ part, expression = .literal part) ∨
      ∃ parts : List String, expression = .call "concat" (parts.map .literal)) ∧
    (∀ context, evaluate context expression = .ok (.text text)) ∧
    ∀ (document : Document) (node : NodeId), (document.node? node).isSome = true →
      evaluateAt document node expression = .ok (.text text) := by
  obtain ⟨expression, phrase, shape, evaluates⟩ := exists_phrase_literal text
  refine ⟨expression, phrase.parse_eq, shape, evaluates, fun document node known => ?_⟩
  rw [evaluateAt, if_pos known]
  exact evaluates _

/-- Quotes of both kinds, one of them doubled, brackets, operators and a comment at a node that is no
element. -/
theorem parse_literal_of_mixture :
    (Document.empty.node? Document.root).isSome = true ∧
    ∃ expression, Path.parse (literal "''\"] or concat('x') | //*[1] <!-- ") = .ok expression ∧
      evaluateAt Document.empty Document.root expression =
        .ok (.text "''\"] or concat('x') | //*[1] <!-- ") := by
  have known : (Document.empty.node? Document.root).isSome = true := by decide
  obtain ⟨expression, parsed, -, -, evaluates⟩ := parse_literal "''\"] or concat('x') | //*[1] <!-- "
  exact ⟨known, expression, parsed, evaluates Document.empty Document.root known⟩

end Group

end ElementQuery
