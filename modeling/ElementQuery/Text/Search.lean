/-
This file finds one text inside another and compares texts without regard to ASCII case.
-/

namespace ElementQuery.Text

/-- ASCII capitals become small letters, and every other character stays. -/
def lower (text : String) : String :=
  String.ofList (text.toList.map Char.toLower)

/-- Two texts are the same up to the case of their ASCII letters. -/
def sameLetters (first second : String) : Bool :=
  lower first == lower second

/-- The text begins with the needle, up to the case of ASCII letters. -/
def beginsWith : List Char → List Char → Bool
  | [], _ => true
  | _ :: _, [] => false
  | c :: needle, d :: text => c.toLower == d.toLower && beginsWith needle text

/-- The needle occurs somewhere in the text. -/
def occurs (needle : List Char) : List Char → Bool
  | [] => needle.isEmpty
  | c :: rest => needle.isPrefixOf (c :: rest) || occurs needle rest

/-- The text is cut at the first occurrence of the needle, which belongs to neither part. -/
def cutAt? (needle : List Char) : List Char → Option (List Char × List Char)
  | [] => if needle.isEmpty then some ([], []) else none
  | c :: rest =>
      if needle.isPrefixOf (c :: rest) then some ([], (c :: rest).drop needle.length)
      else (cutAt? needle rest).map fun parts => (c :: parts.1, parts.2)

theorem cutAt?_sound {needle text before after : List Char}
    (cut : cutAt? needle text = some (before, after)) : text = before ++ needle ++ after := by
  induction text generalizing before with
  | nil =>
      rw [cutAt?] at cut
      split at cut <;> simp_all
  | cons c rest inductionHypothesis =>
      rw [cutAt?] at cut
      split at cut
      · rename_i found
        obtain ⟨tail, shape⟩ := List.isPrefixOf_iff_prefix.1 found
        simp only [Option.some.injEq, Prod.mk.injEq] at cut
        rw [← cut.1, ← cut.2, ← shape]
        simp
      · obtain ⟨parts, inner, equal⟩ := Option.map_eq_some_iff.1 cut
        simp only [Prod.mk.injEq] at equal
        have tail : rest = parts.1 ++ needle ++ after :=
          inductionHypothesis (by rw [inner, ← equal.2])
        rw [tail]
        simp [← equal.1]

/-- A needle occurs exactly when the text can be cut at it. -/
theorem occurs_eq_isSome_cutAt? (needle text : List Char) :
    occurs needle text = (cutAt? needle text).isSome := by
  induction text with
  | nil => cases needle <;> simp [occurs, cutAt?]
  | cons c rest inductionHypothesis =>
      rw [occurs, cutAt?]
      split <;> simp_all

end ElementQuery.Text
