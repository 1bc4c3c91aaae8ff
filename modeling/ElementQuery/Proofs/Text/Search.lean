/-
This file tells where a run of characters ends, what is trimmed of a text, where a text is cut, the words of
a text by what the text contains, and texts in small letters by their characters.
-/

import ElementQuery.Text.Blank
import ElementQuery.Text.Search
import Mathlib.Data.Bool.AllAny
import Mathlib.Data.List.DropRight

namespace ElementQuery.Text

variable {blank : Char} {word text : List Char} {isBreak other : Char → Bool}

/-- A run of characters of a class ends where a character of another class follows. -/
theorem span_run {inClass : Char → Bool} {run rest : List Char}
    (all : ∀ c ∈ run, inClass c = true) (apart : ∀ c ∈ rest.head?, inClass c = false) :
    (run ++ rest).takeWhile inClass = run ∧ (run ++ rest).dropWhile inClass = rest := by
  rw [List.takeWhile_append_of_pos all, List.dropWhile_append_of_pos all]
  cases rest with
  | nil => simp
  | cons c rest => simp [apart c rfl]

/-- A run that ends inside a text, or else at its end, is the same when more text follows. -/
theorem span_append {inClass : Char → Bool} {more : List Char}
    (ends : text.dropWhile inClass = [] → ∀ c ∈ more.head?, inClass c = false) :
    (text ++ more).takeWhile inClass = text.takeWhile inClass ∧
      (text ++ more).dropWhile inClass = text.dropWhile inClass ++ more := by
  have all : ∀ c ∈ text.takeWhile inClass, inClass c = true := fun c => List.mem_takeWhile_imp
  have apart : ∀ c ∈ (text.dropWhile inClass ++ more).head?, inClass c = false := by
    have outside := List.head?_dropWhile_not inClass text
    cases left : text.dropWhile inClass with
    | nil => simpa using ends left
    | cons d tail =>
        rw [left] at outside
        simpa using outside
  have run := span_run all apart
  rwa [← List.append_assoc, List.takeWhile_append_dropWhile] at run

theorem isAsciiBlank_of_isBlank {c : Char} (solid : isBlank c = false) : isAsciiBlank c = false := by
  cases blank : isAsciiBlank c with
  | false => rfl
  | true => exact (isBlank_of_isAsciiBlank blank).symm.trans solid

/-- A solid text begins and ends with a character that is not blank. -/
structure Solid (text : List Char) : Prop where
  front : ∃ c rest, text = c :: rest ∧ isBlank c = false
  back : ∃ rest c, text = rest ++ [c] ∧ isBlank c = false

namespace Solid

theorem ne_nil (solid : Solid text) : text ≠ [] := by
  obtain ⟨c, rest, rfl, -⟩ := solid.front
  exact List.cons_ne_nil c rest

/-- A solid text has nothing to trim. -/
theorem trim_eq (solid : Solid text) : trim text = text := by
  obtain ⟨c, rest, begins, first⟩ := solid.front
  obtain ⟨others, d, ends, last⟩ := solid.back
  have front : text.dropWhile isBlank = text := by
    rw [begins, List.dropWhile_cons_of_neg (by simp [first])]
  have back : text.reverse.dropWhile isBlank = text.reverse := by
    rw [ends, List.reverse_append, List.reverse_singleton, List.singleton_append,
      List.dropWhile_cons_of_neg (by simp [last])]
  rw [trim, front, back, List.reverse_reverse]

/-- Anything may stand between two solid texts. -/
theorem around {first last : List Char} (left : Solid first) (right : Solid last)
    (middle : List Char) : Solid (first ++ (middle ++ last)) := by
  obtain ⟨c, rest, rfl, opens⟩ := left.front
  obtain ⟨others, d, rfl, closes⟩ := right.back
  exact ⟨⟨c, rest ++ (middle ++ (others ++ [d])), by simp, opens⟩,
    ⟨c :: rest ++ (middle ++ others), d, by simp, closes⟩⟩

theorem append {first second : List Char} (left : Solid first) (right : Solid second) :
    Solid (first ++ second) :=
  left.around right []

theorem of_all (nonempty : text ≠ []) (all : ∀ c ∈ text, isBlank c = false) : Solid text := by
  obtain ⟨c, rest, begins⟩ := List.exists_cons_of_ne_nil nonempty
  have ends := List.dropLast_concat_getLast nonempty
  exact ⟨⟨c, rest, begins, all c (by simp [begins])⟩,
    ⟨text.dropLast, text.getLast nonempty, ends.symm, all _ (List.getLast_mem nonempty)⟩⟩

theorem single {c : Char} (solid : isBlank c = false) : Solid [c] :=
  ⟨⟨c, [], rfl, solid⟩, ⟨[], c, rfl, solid⟩⟩

theorem between {first last : Char} {middle : List Char} (opens : isBlank first = false)
    (closes : isBlank last = false) : Solid (first :: (middle ++ [last])) :=
  ⟨⟨first, middle ++ [last], rfl, opens⟩, ⟨first :: middle, last, rfl, closes⟩⟩

theorem flatten {pieces : List (List Char)} (nonempty : pieces ≠ [])
    (all : ∀ piece ∈ pieces, Solid piece) : Solid pieces.flatten := by
  induction pieces with
  | nil => exact absurd rfl nonempty
  | cons piece rest inductionHypothesis =>
      have first := all piece List.mem_cons_self
      by_cases last : rest = []
      · simpa [last] using first
      · rw [List.flatten_cons]
        exact first.append (inductionHypothesis last fun other member =>
          all other (List.mem_cons_of_mem _ member))

end Solid

section Trimming

variable {rest : List Char}

/-- A text that is its own trim has no blank at its front. -/
theorem dropWhile_of_trim_eq (trimmed : trim text = text) : text.dropWhile isBlank = text := by
  have shape : (text.dropWhile isBlank).rdropWhile isBlank = text := trimmed
  refine (List.dropWhile_sublist _).eq_of_length_le ?_
  rw [← congrArg List.length shape]
  exact (List.rdropWhile_prefix isBlank (text.dropWhile isBlank)).length_le

/-- Nothing is left of a text when all of it is blank. -/
theorem trim_eq_nil_iff : trim text = [] ↔ ∀ c ∈ text, isBlank c = true := by
  have shape : trim text = (text.dropWhile isBlank).rdropWhile isBlank := rfl
  rw [shape, List.rdropWhile_eq_nil_iff]
  constructor
  · intro blank c member
    rw [← @List.takeWhile_append_dropWhile _ isBlank text, List.mem_append] at member
    rcases member with front | back
    · exact List.mem_takeWhile_imp front
    · exact blank c back
  · exact fun blank c member => blank c ((List.dropWhile_sublist isBlank).subset member)

/-- At the end of two texts, the first is trimmed only if nothing is left of the second. -/
theorem rdropWhile_append {drop : Char → Bool} : (text ++ rest).rdropWhile drop =
    if (rest.rdropWhile drop).isEmpty then text.rdropWhile drop else text ++ rest.rdropWhile drop := by
  simp only [List.rdropWhile, List.reverse_append, List.dropWhile_append, List.isEmpty_reverse]
  split <;> simp

/-- Of a trimmed text, a mark and a further text, only the end is trimmed. -/
theorem trim_append_mark {mark : Char} (trimmed : trim text = text) (solid : isBlank mark = false) :
    trim (text ++ mark :: rest) = text ++ mark :: rest.rdropWhile isBlank := by
  have front : (text ++ mark :: rest).dropWhile isBlank = text ++ mark :: rest := by
    rw [List.dropWhile_append, dropWhile_of_trim_eq trimmed, List.dropWhile_cons_of_neg (by simp [solid])]
    split
    · rename_i empty
      rw [List.isEmpty_iff.1 empty, List.nil_append]
    · rfl
  have back : (mark :: rest).rdropWhile isBlank = mark :: rest.rdropWhile isBlank := by
    rw [← List.singleton_append, rdropWhile_append]
    split
    · rename_i empty
      rw [List.isEmpty_iff.1 empty, List.rdropWhile_singleton, if_neg (by simp [solid])]
    · rfl
  have shape : trim (text ++ mark :: rest) = (text ++ mark :: rest).rdropWhile isBlank :=
    congrArg (List.rdropWhile isBlank) front
  rw [shape, rdropWhile_append, back]
  rfl

/-- A trimmed text does not end with a blank. -/
theorem isBlank_of_mem_getLast?_trim {c : Char} (last : c ∈ (trim text).getLast?) : isBlank c = false := by
  rw [trim, List.getLast?_reverse] at last
  have solid := List.head?_dropWhile_not isBlank (text.dropWhile isBlank).reverse
  rw [last] at solid
  exact Bool.eq_false_iff.2 (by simpa using solid)

/-- A text that has lost the blanks at its end is its trim behind blanks. -/
theorem exists_rdropWhile_eq (text : List Char) :
    ∃ blanks, (∀ c ∈ blanks, isBlank c = true) ∧ text.rdropWhile isBlank = blanks ++ trim text := by
  have blank : ∀ c ∈ text.takeWhile isBlank, isBlank c = true := fun c => List.mem_takeWhile_imp
  have parts : text.rdropWhile isBlank =
      if (trim text).isEmpty then (text.takeWhile isBlank).rdropWhile isBlank
      else text.takeWhile isBlank ++ trim text := by
    have whole := @rdropWhile_append (text.takeWhile isBlank) (text.dropWhile isBlank) isBlank
    rw [List.takeWhile_append_dropWhile] at whole
    exact whole
  rw [parts]
  split
  · rename_i empty
    refine ⟨[], by simp, ?_⟩
    rw [List.rdropWhile_eq_nil_iff.2 blank, List.isEmpty_iff.1 empty, List.nil_append]
  · exact ⟨_, blank, rfl⟩

end Trimming

/-- A text is cut at the first of several marks. -/
theorem cutAt?_mark {mark : Char} {before after : List Char} (free : mark ∉ before) :
    cutAt? [mark] (before ++ mark :: after) = some (before, after) := by
  induction before with
  | nil => simp [cutAt?, List.isPrefixOf]
  | cons c before inductionHypothesis =>
      have different : mark ≠ c := fun same => free (same ▸ List.mem_cons_self)
      have later := inductionHypothesis fun member => free (List.mem_cons_of_mem _ member)
      rw [List.cons_append, cutAt?, later]
      simp [List.isPrefixOf, different]

/-- The words of a text depend only on which of its characters break. -/
theorem words_congr (same : ∀ c ∈ text, isBreak c = other c) : words isBreak text = words other text := by
  have cut : text.splitOnP isBreak = text.splitOnP other := by
    induction text with
    | nil => rfl
    | cons c rest inductionHypothesis =>
        rw [List.splitOnP_cons_eq_if_modifyHead, List.splitOnP_cons_eq_if_modifyHead, same c List.mem_cons_self,
          inductionHypothesis fun d member => same d (List.mem_cons_of_mem _ member)]
  rw [words, words, cut]

theorem modifyHead_append {change : List Char → List Char} {front back : List (List Char)}
    (nonempty : front ≠ []) :
    (front ++ back).modifyHead change = front.modifyHead change ++ back := by
  cases front with
  | nil => exact absurd rfl nonempty
  | cons piece front => rfl

/-- When more characters break, every piece is cut into pieces. -/
theorem splitOnP_eq_flatMap (finer : ∀ c, isBreak c = true → other c = true) :
    text.splitOnP other = (text.splitOnP isBreak).flatMap (List.splitOnP other) := by
  induction text with
  | nil => rfl
  | cons c rest inductionHypothesis =>
      obtain ⟨piece, more, shape, cut⟩ := exists_splitOnP_cons isBreak c rest
      rw [cut, List.splitOnP_cons_eq_if_modifyHead, inductionHypothesis, shape]
      by_cases breaks : isBreak c = true
      · rw [if_pos breaks, if_pos (finer c breaks)]
        rfl
      · rw [if_neg breaks, List.flatMap_cons, List.flatMap_cons, List.splitOnP_cons_eq_if_modifyHead]
        split
        · rfl
        · exact modifyHead_append (List.splitOnP_ne_nil _ _)

/-- A word stays a word when more characters break, but none of its own. -/
theorem mem_words_of_finer (finer : ∀ c, isBreak c = true → other c = true)
    (whole : ∀ c ∈ word, other c = false) (member : word ∈ words isBreak text) :
    word ∈ words other text := by
  obtain ⟨found, nonempty⟩ := List.mem_filter.1 member
  refine List.mem_filter.2 ⟨?_, nonempty⟩
  rw [splitOnP_eq_flatMap finer]
  exact List.mem_flatMap.2 ⟨word, found, by simp [List.splitOnP_eq_singleton whole]⟩

/-- A text begins with a word before a blank when the word is its first piece. -/
theorem isPrefixOf_blank_iff {first : List Char} {more : List (List Char)} (solid : blank ∉ word)
    (cut : text.splitOnP (· == blank) = first :: more) :
    (word ++ [blank]).isPrefixOf (text ++ [blank]) = true ↔ word = first := by
  induction text generalizing word first more with
  | nil =>
      obtain ⟨rfl, -⟩ := List.cons.inj cut
      cases word with
      | nil => simp [List.isPrefixOf]
      | cons d word => cases word <;> simp [List.isPrefixOf]
  | cons c rest inductionHypothesis =>
      obtain ⟨piece, others, shape, begun⟩ := exists_splitOnP_cons (· == blank) c rest
      rw [begun] at cut
      split at cut
      · rename_i breaks
        obtain ⟨rfl, -⟩ := List.cons.inj cut
        obtain rfl := beq_iff_eq.1 breaks
        cases word with
        | nil => simp [List.isPrefixOf]
        | cons d word =>
            have different : d ≠ c := fun same => solid (by simp [same])
            simp [List.isPrefixOf, different]
      · rename_i stays
        obtain ⟨rfl, -⟩ := List.cons.inj cut
        have different : blank ≠ c := fun same => stays (by simp [same])
        cases word with
        | nil => simp [List.isPrefixOf, different]
        | cons d word =>
            have later := inductionHypothesis (fun member => solid (List.mem_cons_of_mem _ member)) shape
            rw [List.cons_append, List.cons_append, List.isPrefixOf, Bool.and_eq_true, later]
            simp

/-- Behind its first piece, a text contains a word between two blanks when the word is a later
piece. -/
theorem occurs_blank_iff {first : List Char} {more : List (List Char)} (solid : blank ∉ word)
    (cut : text.splitOnP (· == blank) = first :: more) :
    occurs (blank :: (word ++ [blank])) (text ++ [blank]) = true ↔ word ∈ more := by
  induction text generalizing first more with
  | nil =>
      obtain ⟨-, rfl⟩ := List.cons.inj cut
      cases word <;> simp [occurs, List.isPrefixOf]
  | cons c rest inductionHypothesis =>
      obtain ⟨piece, others, shape, begun⟩ := exists_splitOnP_cons (· == blank) c rest
      rw [List.cons_append, occurs, Bool.or_eq_true, inductionHypothesis shape]
      rw [begun] at cut
      split at cut
      · rename_i breaks
        obtain rfl := beq_iff_eq.1 breaks
        obtain ⟨-, rfl⟩ := List.cons.inj cut
        rw [List.isPrefixOf, beq_self_eq_true, Bool.true_and, isPrefixOf_blank_iff solid shape,
          List.mem_cons]
      · rename_i stays
        obtain ⟨-, rfl⟩ := List.cons.inj cut
        have different : blank ≠ c := fun same => stays (by simp [same])
        simp [List.isPrefixOf, different]

/-- A word is one of the words of a text when it is contained in it with a blank on either side. -/
theorem mem_words_iff_occurs (nonempty : word ≠ []) (solid : blank ∉ word) :
    word ∈ words (· == blank) text ↔
      occurs (blank :: (word ++ [blank])) (blank :: (text ++ [blank])) = true := by
  obtain ⟨first, more, shape⟩ := List.exists_cons_of_ne_nil (List.splitOnP_ne_nil (· == blank) text)
  rw [occurs, Bool.or_eq_true, occurs_blank_iff solid shape, List.isPrefixOf, beq_self_eq_true,
    Bool.true_and, isPrefixOf_blank_iff solid shape, words, List.mem_filter, shape, List.mem_cons]
  simp [nonempty]

/-- What has been looked up for every ASCII character holds of a character among them. -/
@[elab_as_elim]
theorem forall_ascii {motive : Char → Prop} (each : ∀ n < 128, motive (Char.ofNat n)) {c : Char}
    (ascii : c.toNat < 128) : motive c := by
  have known := each c.toNat ascii
  rwa [Char.ofNat_toNat] at known

theorem isAlpha_of_isUpper {c : Char} (capital : c.isUpper = true) : c.isAlpha = true :=
  Bool.or_eq_true_iff.2 (.inl capital)

theorem toNat_lt_of_isUpper {c : Char} (capital : c.isUpper = true) : c.toNat < 128 := by
  have range := of_decide_eq_true capital
  exact Nat.lt_of_le_of_lt range.2 (by decide)

theorem toNat_lt_of_isDigit {c : Char} (digit : c.isDigit = true) : c.toNat < 128 := by
  have range := (Bool.and_eq_true_iff.1 digit).2
  exact Nat.lt_of_le_of_lt (of_decide_eq_true range) (by decide)

theorem toNat_lt_of_isAlpha {c : Char} (letter : c.isAlpha = true) : c.toNat < 128 := by
  rcases Bool.or_eq_true_iff.1 letter with capital | small
  · exact toNat_lt_of_isUpper capital
  · have range := (Bool.and_eq_true_iff.1 small).2
    exact Nat.lt_of_le_of_lt (of_decide_eq_true range) (by decide)

theorem toLower_of_isUpper_eq_false {c : Char} (small : c.isUpper = false) : c.toLower = c := by
  unfold Char.isUpper at small
  exact dif_neg (of_decide_eq_false small)

theorem isUpper_toLower (c : Char) : c.toLower.isUpper = false := by
  by_cases capital : c.isUpper = true
  · unfold Char.isUpper at capital ⊢
    have range := of_decide_eq_true capital
    have moved : c.toLower.val = c.val + ('a'.val - 'A'.val) := congrArg Char.val (dif_pos range)
    rw [moved]
    apply decide_eq_false
    simp only [ge_iff_le, UInt32.le_iff_toNat_le, UInt32.toNat_add] at range ⊢
    have first : 'A'.val.toNat = 65 := rfl
    have last : 'Z'.val.toNat = 90 := rfl
    have distance : ('a'.val - 'A'.val).toNat = 32 := rfl
    omega
  · rw [Bool.not_eq_true] at capital
    rw [toLower_of_isUpper_eq_false capital, capital]

theorem isAlpha_toLower_ascii : ∀ n < 128, (Char.ofNat n).isUpper = true →
    (Char.ofNat n).toLower.isAlpha = true := by
  decide +kernel

/-- Only letters are put into small letters. -/
theorem toLower_of_isAlpha_eq_false {c : Char} (sign : c.toLower.isAlpha = false) : c.toLower = c := by
  apply toLower_of_isUpper_eq_false
  rw [← Bool.not_eq_true]
  intro capital
  have ascii := toNat_lt_of_isUpper capital
  revert capital sign
  exact forall_ascii (fun n small sign capital => by
    rw [isAlpha_toLower_ascii n small capital] at sign
    cases sign) ascii

/-- A text without ASCII capitals is in small letters. -/
theorem lower_of_small {name : String} (small : ∀ c ∈ name.toList, c.isUpper = false) :
    lower name = name := by
  have kept : name.toList.map Char.toLower = name.toList := by
    conv => rhs; rw [← List.map_id name.toList]
    apply List.map_congr_left
    intro c member
    exact toLower_of_isUpper_eq_false (small c member)
  rw [lower, kept, String.ofList_toList]

theorem lower_lower (name : String) : lower (lower name) = lower name := by
  apply lower_of_small
  intro c member
  rw [lower, String.toList_ofList, List.mem_map] at member
  obtain ⟨d, -, rfl⟩ := member
  exact isUpper_toLower d

theorem sameLetters_iff {first second : String} :
    sameLetters first second = true ↔ lower first = lower second :=
  beq_iff_eq

end ElementQuery.Text
