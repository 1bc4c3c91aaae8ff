/-
This file follows the content of script and style elements, which is read as it stands but written with
references, through loading and writing in turn.
-/

import ElementQuery.Proofs.Markup.Rereading

namespace ElementQuery

namespace Markup

variable {c mark : Char} {needle rest text more data tail : List Char} {tag : String}

section Terminators

/-- No other character becomes an opening bracket as a small letter. -/
theorem eq_bracket_of_toLower (same : c.toLower = '<') : c = '<' := by
  have sign : c.toLower.isAlpha = false := by
    rw [same]
    decide
  exact (Text.toLower_of_isAlpha_eq_false sign).symm.trans same

theorem beginsWith_eq : Text.beginsWith needle text =
    (needle.map Char.toLower).isPrefixOf (text.map Char.toLower) := by
  induction needle generalizing text with
  | nil => rfl
  | cons c needle inductionHypothesis =>
      cases text with
      | nil => rfl
      | cons d text =>
          rw [Text.beginsWith, inductionHypothesis]
          rfl

/-- A text without a terminator is one in which the small letters of the terminator do not occur. -/
theorem cutPast?_eq_none_iff (solid : needle ≠ []) : cutPast? needle text = none ↔
    Text.occurs (needle.map Char.toLower) (text.map Char.toLower) = false := by
  induction text with
  | nil => simpa [cutPast?, Text.occurs] using solid
  | cons c text inductionHypothesis =>
      rw [cutPast?, List.map_cons, Text.occurs, ← List.map_cons, ← beginsWith_eq,
        Bool.or_eq_false_iff, ← inductionHypothesis]
      cases Text.beginsWith needle (c :: text) <;> simp

/-- A needle that does not hold a mark cannot begin before the mark and end behind it. -/
theorem beginsWith_of_append (fresh : ∀ c ∈ needle, c.toLower ≠ mark.toLower)
    (begins : Text.beginsWith needle (text ++ mark :: more) = true) :
    Text.beginsWith needle text = true := by
  induction needle generalizing text with
  | nil => rfl
  | cons c needle inductionHypothesis =>
      cases text with
      | nil =>
          rw [List.nil_append, Text.beginsWith, Bool.and_eq_true] at begins
          exact absurd (beq_iff_eq.1 begins.1) (fresh c List.mem_cons_self)
      | cons d text =>
          rw [List.cons_append, Text.beginsWith, Bool.and_eq_true] at begins
          rw [Text.beginsWith, begins.1, Bool.true_and]
          exact inductionHypothesis (fun e member => fresh e (List.mem_cons_of_mem _ member)) begins.2

/-- Behind a text without a terminator that begins with a mark, the terminator is found where it stands. -/
theorem cutPast?_append (fresh : ∀ c ∈ rest, c.toLower ≠ mark.toLower)
    (unended : cutPast? (mark :: rest) data = none) :
    cutPast? (mark :: rest) (data ++ (mark :: rest ++ tail)) = some (data, tail) := by
  refine cutPast?_append_of_apart (List.cons_ne_nil _ _) (fun c text begins => ?_) unended
  rw [List.cons_append, Text.beginsWith, Bool.and_eq_true] at begins
  rw [Text.beginsWith, begins.1, Bool.true_and]
  exact beginsWith_of_append fresh begins.2

/-- What is written for a text does not end a raw element. -/
theorem cutPast?_escape (text : List Char) : cutPast? ('<' :: rest) (escape false text) = none := by
  have bare := not_mem_escape_bracket text
  generalize escape false text = written at bare
  induction written with
  | nil => rfl
  | cons c written inductionHypothesis =>
      have different : c ≠ '<' := fun same => bare (same ▸ List.mem_cons_self)
      rw [cutPast?, if_neg, inductionHypothesis fun member => bare (List.mem_cons_of_mem _ member)]
      · rfl
      · intro begins
        rw [Text.beginsWith, Bool.and_eq_true] at begins
        exact different (eq_bracket_of_toLower (beq_iff_eq.1 begins.1).symm)

end Terminators

section References

/-- These characters are not written as references in a text. -/
def IsPlain (c : Char) : Prop := c ≠ '&' ∧ c ≠ '\u00a0' ∧ c ≠ '<' ∧ c ≠ '>'

theorem escapeChar_of_isPlain (plain : IsPlain c) : escapeChar false c = [c] := by
  obtain ⟨ampersand, space, opening, closing⟩ := plain
  simp [escapeChar, ampersand, space, opening, closing]

theorem two_le_length_escapeChar (written : ¬ IsPlain c) : 2 ≤ (escapeChar false c).length := by
  simp only [IsPlain, Classical.not_and_iff_not_or_not, not_not] at written
  rcases written with rfl | rfl | rfl | rfl <;> decide

theorem length_le_length_escape (text : List Char) : text.length ≤ (escape false text).length := by
  induction text with
  | nil => exact Nat.zero_le _
  | cons c rest inductionHypothesis =>
      have one : 1 ≤ (escapeChar false c).length := by
        by_cases plain : IsPlain c
        · rw [escapeChar_of_isPlain plain]
          exact Nat.le_refl 1
        · exact Nat.le_of_succ_le (two_le_length_escapeChar plain)
      rw [escape, List.flatMap_cons, List.length_append, List.length_cons]
      exact Nat.add_comm _ _ ▸ Nat.add_le_add one inductionHypothesis

/-- A text is written as it stands when it has no character that is written as a reference; otherwise it
becomes longer. -/
theorem escape_eq_self_iff : escape false text = text ↔ ∀ c ∈ text, IsPlain c := by
  induction text with
  | nil => simp [escape]
  | cons c rest inductionHypothesis =>
      rw [List.forall_mem_cons, ← inductionHypothesis]
      have split : escape false (c :: rest) = escapeChar false c ++ escape false rest :=
        List.flatMap_cons
      rw [split]
      by_cases plain : IsPlain c
      · simp [escapeChar_of_isPlain plain, plain]
      · refine iff_of_false (fun same => ?_) fun given => plain given.1
        have lengths := congrArg List.length same
        have long := two_le_length_escapeChar plain
        have rests := length_le_length_escape rest
        rw [List.length_append, List.length_cons] at lengths
        omega

end References

section Loading

/-- The markup of one element with some content. -/
def rawMarkup (tag data : String) : String := "<" ++ tag ++ ">" ++ data ++ "</" ++ tag ++ ">"

/-- The row of one element with one text below it. -/
def rawForest (tag data : String) : Forest :=
  .single (.element { tag }) (.leaf (.text data))

/-- The document that is loaded from what is written for a document. -/
def reload (document : Document) : Document := (load (outer document Document.root)).value

/-- An element with this tag name has raw content: its start tag is read as it is written, closes nothing, and
leaves nothing open. -/
structure IsRaw (tag : String) : Prop where
  raw : rawTags.contains tag = true
  loadable : Loadable { tag }
  void : isVoid tag = false
  apart : siblingTags.contains tag = false
  fresh : ∀ c ∈ '/' :: tag.toList, c.toLower ≠ '<'.toLower

theorem isRaw_of_mem_rawTags (raw : tag ∈ rawTags) : IsRaw tag := by
  have loadable : ∀ {tag : String}, IsTagName tag → Loadable { tag } := fun named =>
    ⟨named, ⟨fun _ none => absurd none List.not_mem_nil, List.nodup_nil⟩⟩
  have fresh : ∀ {letters : List Char}, '<' ∉ letters → ∀ c ∈ letters, c.toLower ≠ '<'.toLower :=
    fun bare c member same => bare (eq_bracket_of_toLower same ▸ member)
  simp only [rawTags, List.mem_cons, List.not_mem_nil, or_false] at raw
  rcases raw with rfl | rfl
  · have named : IsTagName "script" :=
      ⟨by simp, by decide, List.all_eq_true.1 (by decide), by simp⟩
    exact ⟨by decide, loadable named, by decide, by decide, fresh (by decide)⟩
  · have named : IsTagName "style" :=
      ⟨by simp, by decide, List.all_eq_true.1 (by decide), by simp⟩
    exact ⟨by decide, loadable named, by decide, by decide, fresh (by decide)⟩

theorem rawMarkup_toList (tag data : String) : (rawMarkup tag data).toList =
    startTag { tag } ++ (data.toList ++ (('<' :: '/' :: tag.toList) ++ ['>'])) := by
  simp [rawMarkup, startTag, String.toList_append]

/-- Raw content goes on up to the end tag of its element. -/
theorem IsRaw.readContent (isRaw : IsRaw tag)
    (unended : cutPast? ('<' :: '/' :: tag.toList) data = none) :
    (readContent tag false (data ++ (('<' :: '/' :: tag.toList) ++ ['>']))).value = (some data, []) := by
  have ended : (skipPast ("</" ++ tag) (data ++ (('<' :: '/' :: tag.toList) ++ ['>']))).value =
      (data, ['>']) := by
    apply skipPast_value
    have shape : ("</" ++ tag).toList = '<' :: '/' :: tag.toList := by simp [String.toList_append]
    rw [shape]
    exact cutPast?_append isRaw.fresh unended
  have closed : (skipPast ">" ['>']).value = ([], []) := skipPast_value (by decide)
  unfold Markup.readContent readRaw
  rw [isRaw.raw]
  simp only [Bool.not_false, Bool.and_self, if_true, Warned.bind_value, Warned.pure_value, ended,
    closed]

/-- From the markup of a raw element its row grows. -/
theorem IsRaw.planted (isRaw : IsRaw tag) {data : String} (nonempty : data.toList ≠ [])
    (unended : cutPast? ('<' :: '/' :: tag.toList) data.toList = none) :
    planted (rawMarkup tag data).toList = rawForest tag data := by
  have content := isRaw.readContent unended
  have same : Growth.elementOf tag [] = { tag } := Growth.elementOf_eq isRaw.loadable
  have text : Growth.rawContent data.toList = .leaf (.text data) := by
    unfold Growth.rawContent
    split
    · exact absurd ‹_› nonempty
    · rw [String.ofList_toList]
  have pieces : cut (rawMarkup tag data).toList = [.startTag tag [] false (some data.toList)] := by
    rw [rawMarkup_toList, cut_startTag_content isRaw.loadable, content, cut_nil]
  have placed : ({} : Growth).place (.startTag tag [] false (some data.toList)) =
      ({} : Growth).put (rawForest tag data) := by
    have stays : ({} : Growth).closeSibling tag = {} := by
      rw [Growth.closeSibling, isRaw.apart]
      rfl
    rw [Growth.place, Growth.startElement, stays, same, text, isRaw.void]
    rfl
  rw [Markup.planted, pieces, List.foldl_cons, placed]
  rfl

/-- What is written for the row of a raw element is its markup, with references in the content. -/
theorem IsRaw.write_rawForest (isRaw : IsRaw tag) (data : String) : (rawForest tag data).write =
    (rawMarkup tag (String.ofList (escape false data.toList))).toList := by
  rw [rawMarkup_toList, String.toList_ofList]
  have void : isVoid ({ tag } : Element).tag = false := isRaw.void
  simp [rawForest, Forest.single, Forest.leaf, Forest.write, Forest.writeAround, void, endTag]

/-- Loading what is written for a raw element is loading its markup with references in the content. -/
theorem IsRaw.reload_load (isRaw : IsRaw tag) {data : String} (nonempty : data.toList ≠ [])
    (unended : cutPast? ('<' :: '/' :: tag.toList) data.toList = none) :
    reload (load (rawMarkup tag data)).value =
      (load (rawMarkup tag (String.ofList (escape false data.toList)))).value := by
  obtain ⟨reachable, top, shown⟩ := load_shows (rawMarkup tag data)
  rw [isRaw.planted nonempty unended] at shown
  rw [reload, shown.outer_eq reachable.linked top reachable.registered.rootContent,
    isRaw.write_rawForest, String.ofList_toList]

/-- Every further round writes references for the content once more. -/
theorem IsRaw.iterate_reload (isRaw : IsRaw tag) {data : List Char} (nonempty : data ≠ [])
    (unended : cutPast? ('<' :: '/' :: tag.toList) data = none) (rounds : Nat) :
    reload^[rounds] (load (rawMarkup tag (String.ofList data))).value =
      (load (rawMarkup tag (String.ofList ((escape false)^[rounds] data)))).value ∧
    (escape false)^[rounds] data ≠ [] ∧
    cutPast? ('<' :: '/' :: tag.toList) ((escape false)^[rounds] data) = none := by
  induction rounds generalizing data with
  | zero => exact ⟨rfl, nonempty, unended⟩
  | succ rounds inductionHypothesis =>
      have once := @IsRaw.reload_load tag isRaw (String.ofList data)
      rw [String.toList_ofList] at once
      rw [Function.iterate_succ_apply, Function.iterate_succ_apply, once nonempty unended]
      exact inductionHypothesis (escape_ne_nil nonempty) (cutPast?_escape data)

end Loading

end Markup

namespace Document

/-- A document has one element only, with this tag name and this text. -/
def HoldsOnly (document : Document) (tag text : String) : Prop :=
  ∃ id, document.elementsByTag root "*" = [id] ∧ document.tag? id = some tag ∧
    document.textContent id = text

variable {document : Document} {tag text other : String}

theorem HoldsOnly.unique (first : document.HoldsOnly tag text) (second : document.HoldsOnly tag other) :
    text = other := by
  obtain ⟨id, only, -, rfl⟩ := first
  obtain ⟨same, alone, -, rfl⟩ := second
  rw [only] at alone
  rw [(List.cons.inj alone).1]

/-- A document that looks like the row of a raw element has no other element. -/
theorem Shows.holdsOnly (linked : document.Linked)
    (shown : document.Shows (document.children root) (Markup.rawForest tag text)) :
    document.HoldsOnly tag text := by
  generalize row : document.children root = nodes at shown
  obtain _ | ⟨held, under, ⟨⟩⟩ := shown
  rename_i id
  generalize below : document.children id = leaves at under
  obtain _ | ⟨known, beneath, ⟨⟩⟩ := under
  rename_i leaf
  generalize nothing : document.children leaf = none at beneath
  cases beneath
  have leafless : document.descendants leaf = [] := by
    rw [linked.descendants_eq, nothing]
    rfl
  have inside : document.descendants id = [leaf] := by
    rw [linked.descendants_eq, below, List.flatMap_singleton, leafless]
  have whole : document.descendants root = [id, leaf] := by
    rw [linked.descendants_eq, row, List.flatMap_singleton, inside]
  refine ⟨id, ?_, ?_, ?_⟩
  · simp [elementsByTag, whole, hasTag, element?, held, known, Element.hasTag]
  · simp [tag?, element?, held]
  · simp [textContent, inside, text?, held, known]

end Document

namespace Markup

open Document (root)

/-- An element with raw content is loaded with the content as it stands, and after any number of rounds of
writing and loading it is still the only element, but each round has put references in its content. So the
content stays as it is only when no character of it is written as a reference. -/
theorem reload_rawMarkup {tag data : String} (raw : tag ∈ rawTags) (nonempty : data ≠ "")
    (unended : Text.occurs ("</" ++ tag).toList (Text.lower data).toList = false) :
    (load (rawMarkup tag data)).value.HoldsOnly tag data ∧
    (∀ rounds, (reload^[rounds] (load (rawMarkup tag data)).value).HoldsOnly tag
      (String.ofList ((escape false)^[rounds] data.toList))) ∧
    ((reload (load (rawMarkup tag data)).value).HoldsOnly tag data ↔
      ∀ c ∈ data.toList, IsPlain c) := by
  have isRaw := isRaw_of_mem_rawTags raw
  have letters : data.toList ≠ [] := by simpa using nonempty
  have terminator : ('<' :: '/' :: tag.toList).map Char.toLower = ("</" ++ tag).toList := by
    have small := congrArg String.toList (Text.lower_of_small isRaw.loadable.tag.small)
    rw [Text.lower, String.toList_ofList] at small
    simp [String.toList_append, small]
  have endless : cutPast? ('<' :: '/' :: tag.toList) data.toList = none := by
    rw [cutPast?_eq_none_iff (List.cons_ne_nil _ _), terminator]
    rwa [Text.lower, String.toList_ofList] at unended
  have loaded : ∀ {content : List Char}, content ≠ [] →
      cutPast? ('<' :: '/' :: tag.toList) content = none →
      (load (rawMarkup tag (String.ofList content))).value.HoldsOnly tag (String.ofList content) := by
    intro content nonempty unended
    obtain ⟨reachable, -, shown⟩ := load_shows (rawMarkup tag (String.ofList content))
    rw [isRaw.planted (by simpa using nonempty) (by simpa using unended)] at shown
    exact shown.holdsOnly reachable.linked
  have every : ∀ rounds, (reload^[rounds] (load (rawMarkup tag data)).value).HoldsOnly tag
      (String.ofList ((escape false)^[rounds] data.toList)) := by
    intro rounds
    obtain ⟨same, solid, still⟩ := isRaw.iterate_reload letters endless rounds
    rw [String.ofList_toList] at same
    exact same ▸ loaded solid still
  have first := every 0
  rw [Function.iterate_zero, Function.iterate_zero, id, id, String.ofList_toList] at first
  refine ⟨first, every, ?_⟩
  rw [← escape_eq_self_iff]
  constructor
  · intro kept
    have same := kept.unique (every 1)
    rw [Function.iterate_one] at same
    conv => rhs; rw [same, String.toList_ofList]
  · intro same
    have once := every 1
    rwa [Function.iterate_one, Function.iterate_one, same, String.ofList_toList] at once

/-- Twice written and loaded, a selector of a style sheet has lost its sign to two references. -/
theorem reload_rawMarkup_of_style :
    (load (rawMarkup "style" "p>q")).value.HoldsOnly "style" "p>q" ∧
    (reload^[2] (load (rawMarkup "style" "p>q")).value).HoldsOnly "style" "p&amp;gt;q" := by
  obtain ⟨first, rounds, -⟩ := @reload_rawMarkup "style" "p>q" (by decide) (by decide) (by decide)
  have second : String.ofList ((escape false)^[2] "p>q".toList) = "p&amp;gt;q" := by decide
  exact ⟨first, second ▸ rounds 2⟩

/-- The content of a script does not survive a round when it compares numbers. -/
theorem reload_rawMarkup_of_script : "script" ∈ rawTags ∧
    Text.occurs "</script".toList (Text.lower "a<b").toList = false ∧
    (load (rawMarkup "script" "a<b")).value.textContent 1 = "a<b" ∧
    outer (load (rawMarkup "script" "a<b")).value root = "<script>a&lt;b</script>" ∧
    ¬ (reload (load (rawMarkup "script" "a<b")).value).HoldsOnly "script" "a<b" := by
  refine ⟨by decide, by decide, by decide +kernel, by decide +kernel, ?_⟩
  rintro ⟨id, only, -, text⟩
  have found : (reload (load (rawMarkup "script" "a<b")).value).elementsByTag root "*" = [1] := by
    decide +kernel
  have changed : (reload (load (rawMarkup "script" "a<b")).value).textContent 1 = "a&lt;b" := by
    decide +kernel
  rw [found] at only
  rw [← (List.cons.inj only).1, changed] at text
  exact absurd text (by decide)

end Markup

end ElementQuery
