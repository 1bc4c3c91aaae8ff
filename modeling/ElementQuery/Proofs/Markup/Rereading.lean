/-
This file shows that what is written for a row of trees is cut into pieces from which the same row grows
again.
-/

import ElementQuery.Proofs.Markup.Pieces

namespace ElementQuery.Markup

variable {tag : String} {data run tail : List Char} {entries found : List (String × String)}
  {element : Element}

section Texts

/-- Markup is opened, or nothing is left, so that a run of text ends. -/
def Opens (tail : List Char) : Prop := tail = [] ∨ opensMarkup tail = true

theorem opensMarkup_of_ne {c : Char} {rest : List Char} (plain : c ≠ '<') :
    opensMarkup (c :: rest) = false := by
  unfold opensMarkup
  split
  · rename_i shape
    exact absurd (List.cons.inj shape).1 plain
  · rfl

/-- A run of text without an opening bracket goes on up to the next markup. -/
theorem textRun_of_not_mem (plain : '<' ∉ run) (opens : Opens tail) :
    textRun (run ++ tail) = (run, tail) := by
  induction run with
  | nil =>
      rcases opens with rfl | opens
      · rfl
      · cases tail with
        | nil => rfl
        | cons c rest => rw [List.nil_append, textRun, if_pos opens]
  | cons c rest inductionHypothesis =>
      have different : c ≠ '<' := fun same => plain (same ▸ List.mem_cons_self)
      have later := inductionHypothesis fun member => plain (List.mem_cons_of_mem _ member)
      rw [List.cons_append, textRun, opensMarkup_of_ne different, later]
      rfl

/-- Text is cut off as one piece. -/
theorem cut_text (nonempty : run ≠ []) (plain : '<' ∉ run) (opens : Opens tail) :
    cut (run ++ tail) = .text run :: cut tail := by
  have whole := textRun_of_not_mem plain opens
  cases run with
  | nil => exact absurd rfl nonempty
  | cons c rest =>
      have different : c ≠ '<' := fun same => plain (same ▸ List.mem_cons_self)
      rw [List.cons_append] at whole ⊢
      rw [cut_of_not_opensMarkup (opensMarkup_of_ne different), whole]

end Texts

section Comments

theorem skipPast_value {terminator : String} {text : List Char} {parts : List Char × List Char}
    (found : cutPast? terminator.toList text = some parts) :
    (skipPast terminator text).value = parts := by
  unfold skipPast
  rw [found]
  rfl

/-- The end of a comment does not begin before it is written, for its end is no beginning of it. -/
theorem cutPast?_comment (unended : IsCommentData data) :
    cutPast? "-->".toList (data ++ ("-->".toList ++ tail)) = some (data, tail) := by
  refine cutPast?_append_of_apart (by decide) (fun c rest begins => ?_) unended
  rcases rest with _ | ⟨d, _ | ⟨e, more⟩⟩
  · simp [Text.beginsWith] at begins
  · simp [Text.beginsWith] at begins
  · simpa [Text.beginsWith] using begins

/-- A comment is cut off as one piece. -/
theorem cut_comment (unended : IsCommentData data) :
    cut ("<!--".toList ++ data ++ "-->".toList ++ tail) = .comment data :: cut tail := by
  have shape : "<!--".toList ++ data ++ "-->".toList ++ tail =
      '<' :: '!' :: '-' :: '-' :: (data ++ ("-->".toList ++ tail)) := by simp
  have read : (readMarkup ('!' :: '-' :: '-' :: (data ++ ("-->".toList ++ tail)))).value =
      (.comment data, tail) := by
    show (readDeclaration _).value = _
    unfold readDeclaration
    rw [if_pos (by simp [List.isPrefixOf])]
    simp only [Warned.bind_value, Warned.pure_value, List.drop_succ_cons, List.drop_zero,
      skipPast_value (cutPast?_comment unended)]
  rw [shape, cut_of_opensMarkup rfl, read]

end Comments

section Tags

/-- A quoted value is read as it was before it was escaped. -/
theorem readValue_escape (value : String) (tail : List Char) :
    readValue ('\x22' :: (escape true value.toList ++ '\x22' :: tail)) = (value, tail) := by
  have solid : ∀ c ∈ escape true value.toList, (c != '\x22') = true := by
    intro c member
    rw [bne_iff_ne]
    rintro rfl
    exact not_mem_escape_quote _ member
  obtain ⟨taken, left⟩ := Text.span_run solid
    (by simp : ∀ c ∈ ('\x22' :: tail).head?, (c != '\x22') = false)
  show quotedValue '\x22' _ = _
  rw [quotedValue, taken, left, decode_escape, String.ofList_toList]
  rfl

/-- A name in small letters is read as it stands. -/
theorem lowerName_of_small (small : ∀ c ∈ tag.toList, c.isUpper = false) :
    lowerName tag.toList = tag :=
  Text.lower_of_small small

/-- An attribute is read as it was written. -/
theorem readAttribute_written {name value : String} (named : IsAttributeName name) :
    readAttribute (name.toList ++ '=' :: '\x22' :: (escape true value.toList ++ '\x22' :: tail)) =
      ((name, value), tail) := by
  obtain ⟨taken, left⟩ := Text.span_run named.inside (by simp; decide :
    ∀ c ∈ ('=' :: '\x22' :: (escape true value.toList ++ '\x22' :: tail)).head?,
      inAttributeName c = false)
  have quoted : readValue (('\x22' :: (escape true value.toList ++ '\x22' :: tail)).dropWhile
      Text.isBlank) = (value, tail) := by
    rw [List.dropWhile_cons_of_neg (by decide), readValue_escape]
  unfold readAttribute
  rw [taken, left, lowerName_of_small named.small, List.dropWhile_cons_of_neg (by decide)]
  exact congrArg (fun read : String × List Char => ((name, read.1), read.2)) quoted

/-- An attribute that is read and has not been found before is added to those that have been found. -/
theorem readAttributes_step {c : Char} {text rest : List Char} {entry : String × String}
    (shape : text.dropWhile Text.isBlank = c :: rest) (notClose : c ≠ '>') (notSlash : c ≠ '/')
    (read : readAttribute (c :: rest) = (entry, tail)) (fresh : entry.1 ∉ found.map Prod.fst) :
    readAttributes found text = readAttributes (found ++ [entry]) tail := by
  have unlisted : listed found entry.1 = false := by simpa [listed] using fresh
  rw [readAttributes]
  split
  · rename_i other
    rw [shape] at other
    cases other
  · rename_i d more other
    rw [shape] at other
    obtain ⟨rfl, rfl⟩ := List.cons.inj other
    rw [dif_neg notClose, dif_neg notSlash, read]
    dsimp only
    rw [unlisted]
    rfl

theorem readAttributes_close (found : List (String × String)) (tail : List Char) :
    readAttributes found ('>' :: tail) = pure (found, '>' :: tail) := by
  have stays : ('>' :: tail).dropWhile Text.isBlank = '>' :: tail :=
    List.dropWhile_cons_of_neg (by decide)
  rw [readAttributes]
  split
  · rename_i shape
    rw [stays] at shape
    cases shape
  · rename_i c rest shape
    rw [stays] at shape
    obtain ⟨rfl, rfl⟩ := List.cons.inj shape
    rw [dif_pos rfl]

/-- The attributes of a tag are read in the order in which they were written. -/
theorem readAttributes_written (named : WellNamed (found ++ entries)) :
    readAttributes found (entries.flatMap writeAttribute ++ '>' :: tail) =
      pure (found ++ entries, '>' :: tail) := by
  induction entries generalizing found with
  | nil =>
      rw [List.append_nil]
      exact readAttributes_close found tail
  | cons entry rest inductionHypothesis =>
      obtain ⟨name, value⟩ := entry
      have valid : IsAttributeName name := named.names (name, value) (by simp)
      have fresh : name ∉ found.map Prod.fst := by
        intro member
        have distinct := named.distinct
        rw [List.map_append] at distinct
        exact (List.nodup_append.1 distinct).2.2 _ member _ List.mem_cons_self rfl
      have moved : found ++ (name, value) :: rest = found ++ [(name, value)] ++ rest :=
        List.append_cons _ _ _
      rw [moved] at named ⊢
      have later := inductionHypothesis named
      -- The name may be empty, and then the equals sign is the first character of the attribute.
      obtain ⟨c, more, first, solid⟩ : ∃ c more, name.toList ++ '=' :: '\x22' ::
          (escape true value.toList ++ '\x22' :: (rest.flatMap writeAttribute ++ '>' :: tail)) =
            c :: more ∧ inTagName c = true := by
        cases letters : name.toList with
        | nil => exact ⟨_, _, rfl, by decide⟩
        | cons d others =>
            exact ⟨d, _, rfl, inTagName_of_inAttributeName
              (valid.inside d (letters ▸ List.mem_cons_self))⟩
      have read := @readAttribute_written (rest.flatMap writeAttribute ++ '>' :: tail) name value valid
      rw [first] at read
      have apart : Text.isBlank c = false ∧ c ≠ '>' ∧ c ≠ '/' := by
        simpa [inTagName, and_assoc] using solid
      have written : ((name, value) :: rest).flatMap writeAttribute ++ '>' :: tail =
          ' ' :: c :: more := by
        rw [← first]
        simp [writeAttribute]
      have shape : (' ' :: c :: more).dropWhile Text.isBlank = c :: more := by
        rw [List.dropWhile_cons_of_pos (by decide), List.dropWhile_cons_of_neg (by simp [apart.1])]
      rw [written, readAttributes_step shape apart.2.1 apart.2.2 read fresh, later]

/-- A tag name that is written is read again. -/
theorem span_tagName (named : IsTagName tag) (apart : ∀ c ∈ tail.head?, inTagName c = false) :
    lowerName ((tag.toList ++ tail).takeWhile inTagName) = tag ∧
      (tag.toList ++ tail).dropWhile inTagName = tail := by
  obtain ⟨taken, left⟩ := Text.span_run named.inside apart
  rw [taken, left]
  exact ⟨lowerName_of_small named.small, rfl⟩

/-- A start tag is read with its name, its attributes and the content that is not read as markup. -/
theorem readStartTag_content (loadable : Loadable element) :
    (readStartTag (element.tag.toList ++ (element.attributes.entries.flatMap writeAttribute ++
      '>' :: tail))).value =
        (.startTag element.tag element.attributes.entries false
          (readContent element.tag false tail).value.1, (readContent element.tag false tail).value.2) := by
  have apart : ∀ c ∈ (element.attributes.entries.flatMap writeAttribute ++ '>' :: tail).head?,
      inTagName c = false := by
    cases element.attributes.entries with
    | nil => simp; decide
    | cons entry rest => simp [writeAttribute]; decide
  obtain ⟨taken, left⟩ := span_tagName loadable.tag apart
  have named : WellNamed ([] ++ element.attributes.entries) := loadable.attributes
  unfold readStartTag
  rw [taken, left, readAttributes_written named]
  have shut : (('>' :: tail).head? == some '/') = false := rfl
  simp only [Warned.bind_value, Warned.pure_value, List.nil_append, shut, Bool.false_eq_true,
    if_false, List.drop_succ_cons, List.drop_zero]

/-- A start tag is cut off as one piece, together with content that is not read as markup. -/
theorem cut_startTag_content (loadable : Loadable element) :
    cut (startTag element ++ tail) =
      .startTag element.tag element.attributes.entries false
          (readContent element.tag false tail).value.1 ::
        cut (readContent element.tag false tail).value.2 := by
  have shape : startTag element ++ tail = '<' :: (element.tag.toList ++
      (element.attributes.entries.flatMap writeAttribute ++ '>' :: tail)) := by
    simp [startTag]
  have read := @readStartTag_content tail element loadable
  cases letters : element.tag.toList with
  | nil => exact absurd letters loadable.tag.nonempty
  | cons c rest =>
      have letter : c.isAlpha = true := loadable.tag.start c (by rw [letters]; rfl)
      have opens : ∀ more, opensMarkup ('<' :: c :: more) = true := by
        intro more
        rw [opensMarkup, letter, Bool.or_true]
      have plainly : ∀ more, readMarkup (c :: more) = readStartTag (c :: more) := by
        intro more
        unfold readMarkup
        split <;> rename_i same
        all_goals first
          | rfl
          | obtain ⟨rfl, -⟩ := List.cons.inj same
            exact absurd letter (by decide)
      rw [letters, List.cons_append] at shape read
      rw [shape, cut_of_opensMarkup (opens _), plainly, read]

/-- A start tag whose element has its content read as markup is cut off alone. -/
theorem cut_startTag (loadable : Loadable element)
    (plain : rawTags.contains element.tag = false) :
    cut (startTag element ++ tail) =
      .startTag element.tag element.attributes.entries false none :: cut tail := by
  have content : readContent element.tag false tail = pure (none, tail) := by
    rw [readContent, plain]
    rfl
  rw [cut_startTag_content loadable, content]
  rfl

/-- An end tag is cut off as one piece. -/
theorem cut_endTag (named : IsTagName element.tag) :
    cut (endTag element ++ tail) = .endTag element.tag :: cut tail := by
  obtain ⟨taken, left⟩ := @span_tagName element.tag ('>' :: tail) named (by simp; decide)
  have shape : endTag element ++ tail = '<' :: '/' :: (element.tag.toList ++ '>' :: tail) := by
    simp [endTag]
  have read : (readMarkup ('/' :: (element.tag.toList ++ '>' :: tail))).value =
      (.endTag element.tag, tail) := by
    show (readEndTag (element.tag.toList ++ '>' :: tail)).value = _
    unfold readEndTag
    rw [taken, left]
    rfl
  rw [shape, cut_of_opensMarkup rfl, read]

end Tags

section Rows

/-- Where a row begins with a tag or a comment, markup is opened. -/
theorem opens_write {forest : Forest} {parent : Option String} (grown : forest.Grown parent)
    (textless : forest.beginsWithText = false) (opens : Opens tail) :
    Opens (forest.write ++ tail) := by
  cases grown with
  | empty => exact opens
  | text => cases textless
  | comment => exact .inr rfl
  | @element _ element below beside loadable =>
      refine .inr ?_
      cases letters : element.tag.toList with
      | nil => exact absurd letters loadable.tag.nonempty
      | cons c rest =>
          have letter : c.isAlpha = true := loadable.tag.start c (by rw [letters]; rfl)
          have begins : ∃ more, (Forest.tree (.element element) below beside).write ++ tail =
              '<' :: c :: more := by
            rw [Forest.write, Forest.writeAround]
            split <;> simp [startTag, letters]
          obtain ⟨more, shape⟩ := begins
          rw [shape, opensMarkup, letter, Bool.or_true]

/-- A text that is put before a row has no text beside it. -/
theorem parted_joinText {forest : Forest} {parent : Option String} (data : String)
    (grown : forest.Grown parent) (parted : forest.Parted) :
    (Forest.joinText data forest).Parted := by
  cases grown with
  | empty => exact ⟨fun _ => rfl, trivial, trivial⟩
  | text => exact ⟨fun _ => parted.1 rfl, parted.2⟩
  | comment => exact ⟨fun _ => rfl, trivial, parted⟩
  | element => exact ⟨fun _ => rfl, trivial, parted⟩

/-- After merging, no text stands beside a text. -/
theorem parted_merged {forest : Forest} {parent : Option String} (grown : forest.Grown parent) :
    forest.merged.Parted := by
  induction grown with
  | empty => trivial
  | text _ aside inductionHypothesis => exact parted_joinText _ aside.merged inductionHypothesis
  | comment _ _ inductionHypothesis =>
      exact ⟨fun text => (nomatch text), trivial, inductionHypothesis⟩
  | element _ _ _ _ _ under aside => exact ⟨fun text => (nomatch text), under, aside⟩

namespace Growth

variable {growth : Growth} {first second : Forest}

theorem put_put : (growth.put first).put second = growth.put (first ++ second) := by
  obtain ⟨ground, boughs⟩ := growth
  cases boughs with
  | nil => simp [put, Forest.append_assoc]
  | cons bough rest => simp [put, Forest.append_assoc]

theorem put_empty : growth.put .empty = growth := by
  obtain ⟨ground, boughs⟩ := growth
  cases boughs with
  | nil => simp [put]
  | cons bough rest => simp [put]

/-- A start tag closes nothing where its element may stand. -/
theorem place_startTag (growth : Growth) (loadable : Loadable element)
    (apart : siblingTags.contains element.tag = true → growth.tag? ≠ some element.tag) :
    growth.place (.startTag element.tag element.attributes.entries false none) =
      if isVoid element.tag then growth.put (.leaf (.element element)) else growth.start element := by
  have same : elementOf element.tag element.attributes.entries = element := elementOf_eq loadable
  have stays : growth.closeSibling element.tag = growth := by
    unfold closeSibling
    rw [if_neg]
    intro closes
    obtain ⟨repeats, innermost⟩ := Bool.and_eq_true_iff.1 closes
    exact apart repeats (beq_iff_eq.1 innermost)
  unfold place startElement
  dsimp only
  rw [stays, same, Bool.false_or]

/-- An end tag of the innermost open element closes it. -/
theorem place_endTag (below : Forest) :
    ((growth.start element).put below).place (.endTag element.tag) =
      growth.put (.single (.element element) below) := by
  obtain ⟨ground, boughs⟩ := growth
  have found : (((element, .empty ++ below) :: boughs).findIdx? fun bough =>
      bough.1.tag == element.tag) = some 0 := by
    rw [List.findIdx?_cons, if_pos (beq_self_eq_true _)]
  show endElement ⟨ground, (element, .empty ++ below) :: boughs⟩ element.tag = _
  unfold endElement
  dsimp only
  rw [found]
  rfl

end Growth

/-- From what is written for a row, the row grows again in its place. -/
theorem foldl_place_write {forest : Forest} {parent : Option String} (grown : forest.Grown parent)
    (parted : forest.Parted) (plain : ∀ element ∈ forest.elements, rawTags.contains element.tag = false)
    (opens : Opens tail) (growth : Growth) (place : growth.tag? = parent) :
    (cut (forest.write ++ tail)).foldl Growth.place growth =
      (cut tail).foldl Growth.place (growth.put forest) := by
  induction grown generalizing growth tail with
  | empty =>
      rw [Growth.put_empty]
      rfl
  | @text parent data beside nonempty aside inductionHypothesis =>
      have behind := opens_write aside (parted.1 rfl) opens
      have shape : (Forest.tree (.text data) .empty beside).write ++ tail =
          escape false data.toList ++ (beside.write ++ tail) := List.append_assoc _ _ _
      rw [shape, cut_text (escape_ne_nil nonempty) (not_mem_escape_bracket _) behind, List.foldl_cons,
        Growth.place, decode_escape, String.ofList_toList,
        inductionHypothesis parted.2.2 plain opens _ (by rw [Growth.tag?_put, place]), Growth.put_put]
      rfl
  | @comment parent data beside unended aside inductionHypothesis =>
      have shape : (Forest.tree (.comment data) .empty beside).write ++ tail =
          "<!--".toList ++ data.toList ++ "-->".toList ++ (beside.write ++ tail) :=
        List.append_assoc _ _ _
      rw [shape, cut_comment unended, List.foldl_cons, Growth.place, String.ofList_toList,
        inductionHypothesis parted.2.2 plain opens _ (by rw [Growth.tag?_put, place]), Growth.put_put]
      rfl
  | @element parent element below beside loadable childless apart under aside inner outer =>
      have plainly := plain element List.mem_cons_self
      have later : ∀ other ∈ beside.elements, rawTags.contains other.tag = false := fun other member =>
        plain other (List.mem_cons_of_mem _ (List.mem_append_right _ member))
      have deeper : ∀ other ∈ below.elements, rawTags.contains other.tag = false := fun other member =>
        plain other (List.mem_cons_of_mem _ (List.mem_append_left _ member))
      have onwards := outer parted.2.2 later opens (growth.put (.single (.element element) below))
        (by rw [Growth.tag?_put, place])
      rw [Growth.put_put] at onwards
      have started := Growth.place_startTag growth loadable (place ▸ apart)
      rw [Forest.write, Forest.writeAround]
      cases void : isVoid element.tag with
      | true =>
          obtain rfl := childless void
          rw [void] at started
          rw [if_pos rfl, List.append_assoc, cut_startTag loadable plainly, List.foldl_cons, started]
          exact onwards
      | false =>
          rw [void] at started
          have closing : Opens (endTag element ++ (beside.write ++ tail)) := .inr rfl
          have beneath := inner parted.2.1 deeper closing (growth.start element) rfl
          rw [if_neg Bool.false_ne_true, List.append_assoc, List.append_assoc, List.append_assoc,
            cut_startTag loadable plainly, List.foldl_cons, started, if_neg Bool.false_ne_true,
            beneath, cut_endTag loadable.tag, List.foldl_cons, Growth.place_endTag]
          exact onwards

/-- What is written for a row is a text from which the row grows. -/
theorem planted_write {forest : Forest} (grown : forest.Grown none) (parted : forest.Parted)
    (plain : ∀ element ∈ forest.elements, rawTags.contains element.tag = false) :
    planted forest.write = forest := by
  have grows := foldl_place_write grown parted plain (.inl rfl) {} rfl
  rw [List.append_nil, cut_nil] at grows
  rw [planted, grows]
  rfl

/-- Merging texts leaves the elements of a row. -/
theorem elements_merged (forest : Forest) : forest.merged.elements = forest.elements := by
  have joined : ∀ data : String, ∀ row : Forest,
      (Forest.joinText data row).elements = row.elements := by
    intro data row
    unfold Forest.joinText
    split <;> rfl
  fun_induction Forest.merged forest with
  | case1 => rfl
  | case2 data beside inductionHypothesis =>
      rw [joined, inductionHypothesis]
      rfl
  | case3 content below beside other inner outer =>
      cases content <;> simp only [Forest.elements, inner, outer]

/-- A document that is loaded from a text without script and style elements is written as a text from
which a document with the same nodes in the same places is loaded, but for texts beside each other, which
become one. -/
theorem load_outer (text : String)
    (plain : ∀ id tag, (load text).value.tag? id = some tag → tag ≠ "script" ∧ tag ≠ "style") :
    ∃ forest, (load text).value.Shows ((load text).value.children Document.root) forest ∧
      (load (outer (load text).value Document.root)).value.Shows
        ((load (outer (load text).value Document.root)).value.children Document.root)
        forest.merged := by
  obtain ⟨reachable, top, shown⟩ := load_shows text
  have written := shown.outer_eq reachable.linked top reachable.registered.rootContent
  have grown := grown_planted text.toList
  have markup : ∀ element ∈ (planted text.toList).merged.elements,
      rawTags.contains element.tag = false := by
    intro element member
    rw [elements_merged] at member
    obtain ⟨id, held⟩ := shown.exists_of_mem_elements member
    have named : (load text).value.tag? id = some element.tag := by
      rw [Document.tag?, Document.element?_eq_some_iff.2 held]
      rfl
    obtain ⟨noScript, noStyle⟩ := plain id element.tag named
    simp [rawTags, noScript, noStyle]
  refine ⟨planted text.toList, shown, ?_⟩
  have again := (load_shows (outer (load text).value Document.root)).2.2
  have regrown := planted_write grown.merged (parted_merged grown) markup
  rw [Forest.write_merged] at regrown
  rw [written] at again ⊢
  rwa [String.toList_ofList, regrown] at again

/-- Two items whose first one is not closed and has a skipped declaration between its texts. -/
theorem load_outer_of_list :
    outer (load "<ul =x><LI>a<!b>c<li>&amp;<br>").value Document.root =
      "<ul =\"x\"><li>ac</li><li>&amp;<br></li></ul>" ∧
    ∃ forest, (load "<ul =x><LI>a<!b>c<li>&amp;<br>").value.Shows
        ((load "<ul =x><LI>a<!b>c<li>&amp;<br>").value.children Document.root) forest ∧
      (load (outer (load "<ul =x><LI>a<!b>c<li>&amp;<br>").value Document.root)).value.Shows
        ((load (outer (load "<ul =x><LI>a<!b>c<li>&amp;<br>").value Document.root)).value.children
          Document.root) forest.merged := by
  refine ⟨by decide +kernel, load_outer _ fun id tag named => ?_⟩
  have all : ∀ id ∈ (load "<ul =x><LI>a<!b>c<li>&amp;<br>").value.ids,
      ((load "<ul =x><LI>a<!b>c<li>&amp;<br>").value.tag? id).all fun tag =>
        decide (tag ≠ "script" ∧ tag ≠ "style") := by
    decide +kernel
  obtain ⟨element, known, -⟩ := Option.map_eq_some_iff.1 named
  have tested := all id (Document.mem_ids_of_content? (Document.element?_eq_some_iff.1 known))
  rw [named] at tested
  exact of_decide_eq_true tested

end Rows

end ElementQuery.Markup
