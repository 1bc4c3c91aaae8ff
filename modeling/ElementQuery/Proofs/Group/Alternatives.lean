/-
This file shows that a list of alternatives is read piece by piece: two texts that are joined by a comma are read as
the groups of the first and those groups of the second that the first does not have.
-/

import ElementQuery.Engine.Basic
import ElementQuery.Proofs.Common.Words

namespace ElementQuery

namespace Engine

variable {engine : Engine} {query other : String}

/-- Away from the native backend a query counts for the groups it is read as. -/
theorem search_congr (foreign : engine.backend ≠ .native) (same : Group.parse query = Group.parse other)
    (document : Document) (scope : NodeId) :
    engine.selectAll document scope query = engine.selectAll document scope other ∧
      engine.selectFirst document scope query = engine.selectFirst document scope other := by
  cases engine with
  | native matcher => exact absurd rfl foreign
  | path evaluator => simp only [selectAll, selectFirst, searchAll, searchFirst, same, and_self]
  | walker => simp only [selectAll, selectFirst, searchAll, searchFirst, same, and_self]

end Engine

namespace Group

section Cutting

variable {nesting : Nesting} {front back text : List Char}

theorem splitAtCommas_ne_nil : splitAtCommas nesting text ≠ [] := by
  induction text generalizing nesting with
  | nil => exact List.cons_ne_nil _ _
  | cons c rest inductionHypothesis =>
      rw [splitAtCommas]
      split
      · exact List.cons_ne_nil _ _
      · simpa using inductionHypothesis

/-- Outside of brackets and quotes there is only one nesting. -/
theorem Nesting.eq_of_isTop (top : nesting.isTop = true) : nesting = {} := by
  obtain ⟨depth, quote⟩ := nesting
  simp only [isTop, Bool.and_eq_true, beq_iff_eq, Option.isNone_iff_eq_none] at top
  rw [top.1, top.2]

/-- A comma behind a text that ends outside of brackets and quotes cuts it off. -/
theorem splitAtCommas_append (closed : (front.foldl (Nesting.advance true) nesting).isTop = true) :
    splitAtCommas nesting (front ++ ',' :: back) =
      splitAtCommas nesting front ++ splitAtCommas {} back := by
  induction front generalizing nesting with
  | nil =>
      obtain rfl := Nesting.eq_of_isTop closed
      rfl
  | cons c front inductionHypothesis =>
      rw [List.foldl_cons] at closed
      rw [List.cons_append, splitAtCommas, splitAtCommas]
      split
      · rename_i cuts
        obtain ⟨top, rfl⟩ : nesting.isTop = true ∧ c = ',' := by simpa using cuts
        have stays : nesting.advance true ',' = nesting := by
          rw [Nesting.eq_of_isTop top]
          rfl
        rw [stays] at closed
        rw [inductionHypothesis closed, List.cons_append]
      · rw [inductionHypothesis closed, Text.modifyHead_append splitAtCommas_ne_nil]

end Cutting

section Reading

variable {known other : List String} {texts front back : List (List Char)}

/-- A group is known by the normalized text of its words. -/
theorem source_ofWords (words : List (List Char)) : (ofWords words).value.source = normalized words := rfl

/-- Of the sources that are known, only which they are matters. -/
theorem readGroups_congr (same : ∀ source, source ∈ known ↔ source ∈ other) :
    readGroups known texts = readGroups other texts := by
  induction texts generalizing known other with
  | nil => rfl
  | cons text texts inductionHypothesis =>
      have found : known.contains (normalized (groupWords text)) =
          other.contains (normalized (groupWords text)) := by
        rw [Bool.eq_iff_iff, List.contains_iff_mem, List.contains_iff_mem, same]
      have later : readGroups (known ++ [normalized (groupWords text)]) texts =
          readGroups (other ++ [normalized (groupWords text)]) texts :=
        inductionHypothesis fun source => by simp [same]
      rw [readGroups, readGroups, inductionHypothesis same]
      simp only [found, later]

/-- Two rows of texts are read one after the other, the second with the groups of the first known. -/
theorem readGroups_append : readGroups known (front ++ back) = (do
    let groups ← readGroups known front
    let others ← readGroups (known ++ groups.map Group.source) back
    return groups ++ others) := by
  induction front generalizing known with
  | nil =>
      simp only [List.nil_append, readGroups, Warned.pure_bind, List.map_nil, List.append_nil]
      exact (Warned.bind_pure _).symm
  | cons text front inductionHypothesis =>
      rw [List.cons_append, readGroups, readGroups]
      split
      · exact inductionHypothesis
      · simp only [inductionHypothesis, Warned.bind_assoc, Warned.pure_bind]
        refine Warned.bind_congr ?_
        simp only [List.map_cons, source_ofWords, List.append_assoc, List.cons_append,
          List.nil_append]

/-- What is known from the start is left out, and nothing else changes. -/
theorem readGroups_known (extra : List String) :
    (readGroups (extra ++ known) texts).value =
      (readGroups known texts).value.filter fun group => group.source ∉ extra := by
  induction texts generalizing known with
  | nil => rfl
  | cons text texts inductionHypothesis =>
      have parts := @inductionHypothesis (known ++ [normalized (groupWords text)])
      rw [readGroups, readGroups]
      by_cases empty : normalized (groupWords text) = ""
      · simpa [empty] using inductionHypothesis
      by_cases old : normalized (groupWords text) ∈ known
      · simpa [old] using inductionHypothesis
      by_cases given : normalized (groupWords text) ∈ extra
      · have same : readGroups (extra ++ (known ++ [normalized (groupWords text)])) texts =
            readGroups (extra ++ known) texts :=
          readGroups_congr fun source => by
            simp only [List.mem_append, List.mem_singleton]
            constructor
            · rintro (left | middle | rfl)
              · exact .inl left
              · exact .inr middle
              · exact .inl given
            · rintro (left | middle)
              · exact .inl left
              · exact .inr (.inl middle)
        rw [same] at parts
        simp [empty, old, given, source_ofWords, parts]
      · simpa [empty, old, given, source_ofWords] using parts

/-- After a row of texts has been read, the source of each of them is empty or known. -/
theorem mem_sources_readGroups {text : List Char} (member : text ∈ texts) :
    normalized (groupWords text) = "" ∨
      normalized (groupWords text) ∈ known ++ (readGroups known texts).value.map Group.source := by
  induction texts generalizing known with
  | nil => exact absurd member List.not_mem_nil
  | cons first texts inductionHypothesis =>
      rw [readGroups]
      rcases List.mem_cons.1 member with rfl | later
      · by_cases empty : normalized (groupWords text) = ""
        · exact .inl empty
        by_cases old : normalized (groupWords text) ∈ known
        · exact .inr (List.mem_append_left _ old)
        · exact .inr (by simp [empty, old, source_ofWords])
      · split
        · exact inductionHypothesis later
        · simpa [source_ofWords] using
            @inductionHypothesis (known ++ [normalized (groupWords first)]) later

/-- Texts whose sources are known are passed over in silence. -/
theorem readGroups_of_known (each : ∀ text ∈ texts,
    normalized (groupWords text) = "" ∨ normalized (groupWords text) ∈ known) :
    readGroups known texts = pure [] := by
  induction texts with
  | nil => rfl
  | cons text texts inductionHypothesis =>
      rw [readGroups, if_pos (by simpa using each text List.mem_cons_self)]
      exact inductionHypothesis fun other member => each other (List.mem_cons_of_mem _ member)

/-- A blank before the first text does not change what is read. -/
theorem readGroups_modifyHead {c : Char} (blank : Text.isBlank c = true) :
    readGroups known (texts.modifyHead (List.cons c)) = readGroups known texts := by
  cases texts with
  | nil => rfl
  | cons text texts =>
      have words : groupWords (c :: text) = groupWords text := Common.wordsFrom_blank blank
      rw [List.modifyHead_cons, readGroups, readGroups, words]

/-- Blanks before a text do not change what is read. -/
theorem readGroups_blanks {blanks text : List Char} (blank : ∀ c ∈ blanks, Text.isBlank c = true) :
    readGroups known (splitAtCommas {} (blanks ++ text)) = readGroups known (splitAtCommas {} text) := by
  induction blanks with
  | nil => rfl
  | cons c blanks inductionHypothesis =>
      have first := blank c List.mem_cons_self
      have noComma : c ≠ ',' := by
        rintro rfl
        cases first
      have stays : Nesting.advance true {} c = {} := by
        have plain := Common.isPlain_of_isBlank first
        simp only [Common.isPlain, Bool.not_eq_true', Bool.or_eq_false_iff, beq_eq_false_iff_ne] at plain
        simp [Nesting.advance, plain]
      rw [List.cons_append, splitAtCommas, if_neg (by simp [noComma]), stays,
        readGroups_modifyHead first]
      exact inductionHypothesis fun d member => blank d (List.mem_cons_of_mem _ member)

end Reading

section Queries

variable {query : String}

/-- The alternatives behind a comma are read when those before it are known. -/
theorem parse_append (trimmed : Text.trim query.toList = query.toList)
    (closed : (query.toList.foldl (Nesting.advance true) {}).isTop = true) (further : String) :
    parse (query ++ "," ++ further) = (do
      let groups ← parse query
      let others ← readGroups (groups.map Group.source) (splitAtCommas {} (Text.trim further.toList))
      return groups ++ others) := by
  obtain ⟨blanks, blank, shape⟩ := Text.exists_rdropWhile_eq further.toList
  have letters : Text.trim (query ++ "," ++ further).toList =
      query.toList ++ ',' :: (blanks ++ Text.trim further.toList) := by
    rw [← shape, ← Text.trim_append_mark trimmed (by decide)]
    simp
  rw [parse, parse, letters, trimmed, splitAtCommas_append closed, readGroups_append]
  simp only [List.nil_append, readGroups_blanks blank]

/-- The alternatives of a query are all known when it is read again. -/
theorem parse_append_self (trimmed : Text.trim query.toList = query.toList)
    (closed : (query.toList.foldl (Nesting.advance true) {}).isTop = true) :
    parse (query ++ "," ++ query) = parse query := by
  have silent : readGroups ((parse query).value.map Group.source)
      (splitAtCommas {} (Text.trim query.toList)) = pure [] :=
    readGroups_of_known fun text member => @mem_sources_readGroups [] _ text member
  have again : parse (query ++ "," ++ query) = (parse query >>= fun groups => pure groups) := by
    rw [parse_append trimmed closed]
    refine Warned.bind_congr ?_
    rw [silent, Warned.pure_bind, List.append_nil]
  rw [again]
  exact Warned.bind_pure _

end Queries

/-- A query and a further text behind a comma are read as the groups of the query and those groups of the
text whose sources the query does not have. A query that is repeated is read as the query, and away from the
native backend its repetition changes no result. -/
theorem parse_alternatives (query : String) (trimmed : Text.trim query.toList = query.toList)
    (closed : (query.toList.foldl (Nesting.advance true) {}).isTop = true) :
    (∀ further : String, (parse (query ++ "," ++ further)).value =
      (parse query).value ++ (parse further).value.filter fun group =>
        group.source ∉ (parse query).value.map Group.source) ∧
    parse (query ++ "," ++ query) = parse query ∧
    ∀ engine : Engine, engine.backend ≠ .native → ∀ (document : Document) (scope : NodeId),
      engine.selectAll document scope (query ++ "," ++ query) = engine.selectAll document scope query ∧
      engine.selectFirst document scope (query ++ "," ++ query) =
        engine.selectFirst document scope query := by
  have repeated := parse_append_self trimmed closed
  refine ⟨fun further => ?_, repeated, fun engine foreign => Engine.search_congr foreign repeated⟩
  have others := @readGroups_known [] (splitAtCommas {} (Text.trim further.toList))
    ((parse query).value.map Group.source)
  rw [List.append_nil] at others
  rw [parse_append trimmed closed]
  exact congrArg ((parse query).value ++ ·) others

/-- Brackets may be closed that were never opened before the comma, and left open behind it, and the
alternative that both texts have is read once. -/
theorem parse_alternatives_of_bracket :
    Text.trim "a], b[c='(,']".toList = "a], b[c='(,']".toList ∧
    ("a], b[c='(,']".toList.foldl (Nesting.advance true) {}).isTop = true ∧
    (parse ("a], b[c='(,']" ++ "," ++ " b[c='(,'] , p[x, y")).value =
      (parse "a], b[c='(,']").value ++ (parse " b[c='(,'] , p[x, y").value.filter (fun group =>
        group.source ∉ (parse "a], b[c='(,']").value.map Group.source) ∧
    ((parse ("a], b[c='(,']" ++ "," ++ " b[c='(,'] , p[x, y")).value.map Group.source) =
      ["a]", "b[c='(,']", "p[x, y"] :=
  ⟨by decide +kernel, by decide +kernel,
    (parse_alternatives "a], b[c='(,']" (by decide +kernel) (by decide +kernel)).1 " b[c='(,'] , p[x, y",
    by decide +kernel⟩

end Group

end ElementQuery
