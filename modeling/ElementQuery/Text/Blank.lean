/-
This file holds the two classes of blank characters and the ways of cutting text at them.
-/

namespace ElementQuery.Text

/-- The first and the last code point of each run of characters with the property White_Space. -/
def blankRuns : List (Nat × Nat) :=
  [(9, 13), (32, 32), (133, 133), (160, 160), (5760, 5760), (8192, 8202), (8232, 8233),
    (8239, 8239), (8287, 8287), (12288, 12288)]

/-- A character is blank when it has the property White_Space. -/
def isBlank (c : Char) : Bool :=
  blankRuns.any fun run => run.1 ≤ c.toNat && c.toNat ≤ run.2

/-- The ASCII blanks are space, tab, line feed, form feed and carriage return. -/
def isAsciiBlank (c : Char) : Bool :=
  c == ' ' || c == '\t' || c == '\n' || c == '\x0c' || c == '\r'

theorem isBlank_of_isAsciiBlank {c : Char} (blank : isAsciiBlank c = true) : isBlank c = true := by
  simp only [isAsciiBlank, Bool.or_eq_true, beq_iff_eq] at blank
  rcases blank with (((rfl | rfl) | rfl) | rfl) | rfl <;> decide

/-- Dropping characters never makes a text longer. -/
theorem length_dropWhile_le (drop : Char → Bool) (text : List Char) :
    (text.dropWhile drop).length ≤ text.length :=
  (List.dropWhile_sublist drop).length_le

/-- Blanks are dropped from both ends. -/
def trim (text : List Char) : List Char :=
  ((text.dropWhile isBlank).reverse.dropWhile isBlank).reverse

/-- The words of a text are the pieces between its breaking characters that hold a character. -/
def words (isBreak : Char → Bool) (text : List Char) : List (List Char) :=
  (text.splitOnP isBreak).filter fun piece => !piece.isEmpty

/-- A breaking character puts an empty piece before the others, and another one goes before the first. -/
theorem exists_splitOnP_cons (isBreak : Char → Bool) (c : Char) (rest : List Char) :
    ∃ first more, rest.splitOnP isBreak = first :: more ∧
      (c :: rest).splitOnP isBreak =
        if isBreak c then [] :: first :: more else (c :: first) :: more := by
  obtain ⟨first, more, shape⟩ := List.exists_cons_of_ne_nil (List.splitOnP_ne_nil isBreak rest)
  refine ⟨first, more, shape, ?_⟩
  rw [List.splitOnP_cons_eq_if_modifyHead, shape, List.modifyHead_cons]

theorem isBreak_eq_false_of_mem_splitOnP {isBreak : Char → Bool} {text piece : List Char}
    (member : piece ∈ text.splitOnP isBreak) : ∀ c ∈ piece, isBreak c = false := by
  induction text generalizing piece with
  | nil => simp_all
  | cons c rest inductionHypothesis =>
      obtain ⟨first, more, shape, cut⟩ := exists_splitOnP_cons isBreak c rest
      rw [shape] at inductionHypothesis
      rw [cut] at member
      split at member
      · rcases List.mem_cons.1 member with rfl | later
        · simp
        · exact inductionHypothesis later
      · rename_i kept
        rcases List.mem_cons.1 member with rfl | later
        · intro d inside
          rcases List.mem_cons.1 inside with rfl | deeper
          · simpa using kept
          · exact inductionHypothesis List.mem_cons_self d deeper
        · exact inductionHypothesis (List.mem_cons_of_mem _ later)

end ElementQuery.Text
