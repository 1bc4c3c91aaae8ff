/-
This file shows that the pieces that are cut from a text are sound: names end where they have to, comments
at their first end, and no run of text is empty.
-/

import ElementQuery.Proofs.Markup.Loadable

namespace ElementQuery.Markup

section Terminators

variable {terminator text more before after : List Char}

theorem beginsWith_append (begins : Text.beginsWith terminator text = true) :
    Text.beginsWith terminator (text ++ more) = true := by
  induction terminator generalizing text with
  | nil => rfl
  | cons c rest inductionHypothesis =>
      cases text with
      | nil => cases begins
      | cons d text =>
          rw [Text.beginsWith, Bool.and_eq_true] at begins
          rw [List.cons_append, Text.beginsWith, begins.1, inductionHypothesis begins.2]
          rfl

/-- Before the first terminator there is none. -/
theorem of_cutPast?_eq_some (found : cutPast? terminator text = some (before, after)) :
    cutPast? terminator before = none ∧ ∃ behind, text = before ++ behind := by
  induction text generalizing before with
  | nil => cases found
  | cons c rest inductionHypothesis =>
      rw [cutPast?] at found
      split at found
      · obtain ⟨rfl, rfl⟩ := Prod.mk.inj (Option.some.inj found)
        exact ⟨rfl, c :: rest, rfl⟩
      · rename_i later
        obtain ⟨parts, inner, equal⟩ := Option.map_eq_some_iff.1 found
        obtain ⟨rfl, rfl⟩ := Prod.mk.inj equal
        obtain ⟨none, behind, shape⟩ := inductionHypothesis inner
        refine ⟨?_, behind, by rw [shape]; rfl⟩
        rw [cutPast?, if_neg, none]
        · rfl
        · intro begins
          rw [shape, ← List.cons_append] at later
          exact later (beginsWith_append begins)

theorem beginsWith_self (needle tail : List Char) : Text.beginsWith needle (needle ++ tail) = true := by
  induction needle with
  | nil => rfl
  | cons c needle inductionHypothesis =>
      rw [List.cons_append, Text.beginsWith, inductionHypothesis]
      simp

/-- Behind a text without a terminator the terminator is found where it stands, when none begins in the text
and ends behind it. -/
theorem cutPast?_append_of_apart (solid : terminator ≠ [])
    (apart : ∀ c rest, Text.beginsWith terminator (c :: rest ++ (terminator ++ more)) = true →
      Text.beginsWith terminator (c :: rest) = true)
    (unended : cutPast? terminator text = none) :
    cutPast? terminator (text ++ (terminator ++ more)) = some (text, more) := by
  induction text with
  | nil =>
      have begins := beginsWith_self terminator more
      obtain ⟨c, needle, rfl⟩ := List.exists_cons_of_ne_nil solid
      rw [List.nil_append, List.cons_append, cutPast?, ← List.cons_append, if_pos begins, List.drop_left]
  | cons c rest inductionHypothesis =>
      rw [cutPast?] at unended
      split at unended
      · cases unended
      · rename_i later
        have beyond := inductionHypothesis (Option.map_eq_none_iff.1 unended)
        have plain : ¬ Text.beginsWith terminator (c :: (rest ++ (terminator ++ more))) = true :=
          fun begins => later (apart c rest begins)
        rw [List.cons_append, cutPast?, if_neg plain, beyond]
        rfl

/-- What is skipped holds no terminator. -/
theorem cutPast?_skipPast (terminator : String) (text : List Char) :
    cutPast? terminator.toList (skipPast terminator text).value.1 = none := by
  unfold skipPast
  split
  · rename_i parts found
    exact (of_cutPast?_eq_some found).1
  · rename_i missing
    exact missing

end Terminators

section Names

theorem lowerName_nonempty {name : List Char} (nonempty : name ≠ []) :
    (lowerName name).toList ≠ [] := by
  simpa [lowerName] using nonempty

theorem small_lowerName (name : List Char) : ∀ c ∈ (lowerName name).toList, c.isUpper = false := by
  intro c member
  rw [lowerName, String.toList_ofList, List.mem_map] at member
  obtain ⟨d, -, rfl⟩ := member
  exact Text.isUpper_toLower d

/-- The characters of a name in small letters are of a class when it is closed under these. -/
theorem inside_lowerName (inName : Char → Bool)
    (closed : ∀ c, inName c = true → inName c.toLower = true) (text : List Char) :
    ∀ c ∈ (lowerName (text.takeWhile inName)).toList, inName c = true := by
  intro c member
  rw [lowerName, String.toList_ofList, List.mem_map] at member
  obtain ⟨d, inside, rfl⟩ := member
  exact closed d (List.all_eq_true.1 List.all_takeWhile d inside)

theorem isAttributeName_readAttribute (text : List Char) :
    IsAttributeName (readAttribute text).1.1 := by
  have named : (readAttribute text).1.1 = lowerName (text.takeWhile inAttributeName) := by
    unfold readAttribute
    dsimp only
    split <;> rfl
  rw [named]
  exact ⟨inside_lowerName inAttributeName (fun _ => inAttributeName_toLower) text, small_lowerName _⟩

/-- The name at the beginning of a start tag is a tag name. -/
theorem isTagName_of_isAlpha {c : Char} {rest : List Char} (letter : c.isAlpha = true) :
    IsTagName (lowerName ((c :: rest).takeWhile inTagName)) := by
  have begins : (c :: rest).takeWhile inTagName = c :: rest.takeWhile inTagName :=
    List.takeWhile_cons_of_pos (isAlpha_apart letter).1
  refine ⟨?_, ?_, inside_lowerName inTagName (fun _ => inTagName_toLower) _, small_lowerName _⟩
  · rw [begins]
    intro d first
    simp only [lowerName, String.toList_ofList, List.map_cons, List.head?_cons, Option.mem_def,
      Option.some.injEq] at first
    exact first ▸ (isAlpha_apart letter).2.1
  · exact lowerName_nonempty (begins ▸ List.cons_ne_nil _ _)

/-- The attributes that are read have different names. -/
theorem wellNamed_readAttributes {found : List (String × String)} (named : WellNamed found)
    (text : List Char) : WellNamed (readAttributes found text).value.1 := by
  fun_induction readAttributes found text with
  | case1 => exact named
  | case2 => exact named
  | case3 => exact named
  | case4 found text rest _ shape _ inductionHypothesis => exact inductionHypothesis named
  | case5 found text c rest shape notClose notSlash entry again inductionHypothesis =>
      exact inductionHypothesis named
  | case6 found text c rest shape notClose notSlash entry fresh inductionHypothesis =>
      apply inductionHypothesis
      have absent : entry.1 ∉ found.map Prod.fst := by simpa [listed] using fresh
      constructor
      · intro other member
        rcases List.mem_append.1 member with old | new
        · exact named.names other old
        · rw [List.mem_singleton.1 new]
          exact isAttributeName_readAttribute _
      · rw [List.map_append, List.nodup_append]
        refine ⟨named.distinct, List.nodup_singleton _, ?_⟩
        intro one old two new same
        rw [List.map_singleton, List.mem_singleton] at new
        exact absent (new ▸ same ▸ old)

end Names

section Pieces

theorem sound_readStartTag {c : Char} {rest : List Char} (letter : c.isAlpha = true) :
    (readStartTag (c :: rest)).value.1.Sound := by
  have none : WellNamed [] := ⟨fun _ member => absurd member List.not_mem_nil, List.nodup_nil⟩
  exact ⟨isTagName_of_isAlpha letter, wellNamed_readAttributes none _⟩

theorem sound_readDeclaration (text : List Char) : (readDeclaration text).value.1.Sound := by
  unfold readDeclaration
  split
  · exact cutPast?_skipPast "-->" _
  · trivial

theorem sound_readMarkup {text : List Char} (opens : opensMarkup ('<' :: text) = true) :
    (readMarkup text).value.1.Sound := by
  unfold readMarkup
  split
  · exact sound_readDeclaration _
  · trivial
  · trivial
  · rename_i notDeclared notProcessed notEnd
    cases text with
    | nil => cases opens
    | cons c rest =>
        refine sound_readStartTag ?_
        simp only [opensMarkup, Bool.or_eq_true, beq_iff_eq] at opens
        rcases opens with ((rfl | rfl) | rfl) | letter
        · exact absurd rfl (notDeclared rest)
        · exact absurd rfl (notProcessed rest)
        · exact absurd rfl (notEnd rest)
        · exact letter

theorem cut_nil : cut [] = [] := by
  rw [cut, pieces]
  rfl

theorem cut_of_opensMarkup {text : List Char} (opens : opensMarkup ('<' :: text) = true) :
    cut ('<' :: text) = (readMarkup text).value.1 :: cut (readMarkup text).value.2 := by
  rw [cut, pieces, dif_pos opens]
  rfl

theorem cut_of_not_opensMarkup {c : Char} {rest : List Char}
    (shut : opensMarkup (c :: rest) = false) :
    cut (c :: rest) = .text (textRun (c :: rest)).1 :: cut (textRun (c :: rest)).2 := by
  rw [cut, pieces, dif_neg (by simp [shut])]
  rfl

/-- What holds of every run of text and of all markup holds of every piece of a text. -/
theorem forall_mem_cut {holds : Piece → Prop} (runs : ∀ data, data ≠ [] → holds (.text data))
    (markup : ∀ rest, opensMarkup ('<' :: rest) = true → holds (readMarkup rest).value.1)
    (text : List Char) : ∀ piece ∈ cut text, holds piece := by
  unfold cut
  fun_induction pieces text with
  | case1 => simp
  | case2 c rest opens read inductionHypothesis =>
      have bracket : c = '<' := by
        unfold opensMarkup at opens
        split at opens
        · rename_i shape
          exact (List.cons.inj shape).1
        · cases opens
      obtain rfl := bracket
      rw [List.map_cons, List.forall_mem_cons]
      exact ⟨markup rest opens, inductionHypothesis⟩
  | case3 c rest shut run inductionHypothesis =>
      rw [List.map_cons, List.forall_mem_cons]
      refine ⟨runs _ ?_, inductionHypothesis⟩
      show (textRun (c :: rest)).1 ≠ []
      rw [textRun, if_neg shut]
      exact List.cons_ne_nil _ _

/-- Every piece of a text is sound. -/
theorem sound_of_mem_cut (text : List Char) : ∀ piece ∈ cut text, piece.Sound :=
  forall_mem_cut (fun _ nonempty => nonempty) (fun _ opens => sound_readMarkup opens) text

/-- The row that grows from a text has grown as it can. -/
theorem grown_planted (text : List Char) : (planted text).Grown none :=
  (Growth.Steady.foldl_place ⟨.empty, .nil⟩ (sound_of_mem_cut text)).whole

/-- What holds everywhere in the row that grows from a text holds of each node of the document that is loaded
from it, the document node apart. -/
theorem exists_below_of_load {text : String} {holds : Content → Forest → Prop}
    (every : (planted text.toList).Everywhere holds) {id : NodeId} {content : Content}
    (known : (load text).value.content? id = some content) (other : content ≠ .document) :
    ∃ below, (load text).value.Shows ((load text).value.children id) below ∧ holds content below := by
  have follows := follows_placeAll text
  have linked : (load text).value.Linked := follows.reachable.linked
  have shown : (load text).value.Shows ((load text).value.children Document.root)
    (planted text.toList) := follows.stands.whole
  have order : (load text).value.descendants Document.root =
    List.range' 1 ((load text).value.size - 1) := follows.inOrder
  have top : (load text).value.content? Document.root = some .document := follows.rootContent
  have below : id ∈ (load text).value.descendants Document.root := by
    have inside := Document.lt_size_of_content? known
    have different : id ≠ Document.root := by
      rintro rfl
      exact other (Option.some.inj (known.symm.trans top))
    have positive : 0 < id := Nat.pos_of_ne_zero different
    rw [order, List.mem_range'_1]
    exact ⟨positive, Nat.lt_of_lt_of_le inside (Nat.sub_le_iff_le_add'.1 (Nat.le_refl _))⟩
  rw [linked.descendants_eq] at below
  exact shown.exists_below linked every below known

/-- Every element of a loaded document can be read from a start tag. -/
theorem loadable_of_load {text : String} {id : NodeId} {element : Element}
    (held : (load text).value.element? id = some element) : Loadable element := by
  obtain ⟨below, -, parent, row⟩ := exists_below_of_load (grown_planted text.toList).everywhere
    (Document.element?_eq_some_iff.1 held) nofun
  cases row with
  | element loadable _ _ _ _ => exact loadable

end Pieces

end ElementQuery.Markup
