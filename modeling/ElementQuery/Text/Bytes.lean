/-
This file counts the bytes of a text in UTF-8 and cuts a text behind a number of bytes.
-/

namespace ElementQuery.Text

/-- The number of bytes of a text in UTF-8. -/
def byteLength (text : List Char) : Nat :=
  text.foldr (fun c total => c.utf8Size + total) 0

@[simp] theorem byteLength_nil : byteLength [] = 0 := rfl

@[simp] theorem byteLength_cons (c : Char) (rest : List Char) :
    byteLength (c :: rest) = c.utf8Size + byteLength rest := rfl

@[simp] theorem byteLength_append (first second : List Char) :
    byteLength (first ++ second) = byteLength first + byteLength second := by
  induction first with
  | nil => simp
  | cons c rest inductionHypothesis => simp [inductionHypothesis, Nat.add_assoc]

/-- A shorter end of a text has less bytes. -/
theorem byteLength_lt_of_suffix {first second : List Char} (behind : second <:+ first)
    (shorter : second.length < first.length) : byteLength second < byteLength first := by
  obtain ⟨front, rfl⟩ := behind
  cases front with
  | nil => exact absurd shorter (Nat.lt_irrefl _)
  | cons c front =>
      have positive := c.utf8Size_pos
      rw [List.cons_append, byteLength_cons, byteLength_append]
      omega

theorem length_le_byteLength (text : List Char) : text.length ≤ byteLength text := by
  induction text with
  | nil => exact Nat.le_refl 0
  | cons c rest inductionHypothesis =>
      have positive := c.utf8Size_pos
      rw [List.length_cons, byteLength_cons]
      omega

/-- A text has the bytes that its characters take. -/
theorem utf8ByteSize_ofList (text : List Char) :
    (String.ofList text).utf8ByteSize = byteLength text := by
  induction text with
  | nil => rfl
  | cons c rest inductionHypothesis =>
      rw [String.ofList_cons, String.utf8ByteSize_append, String.utf8ByteSize_singleton,
        inductionHypothesis, byteLength_cons]

/-- Both parts of a text that is cut behind a number of bytes. Within a character it cannot be cut. -/
def cutBytes? : Nat → List Char → Option (List Char × List Char)
  | 0, text => some ([], text)
  | _ + 1, [] => none
  | count + 1, c :: rest =>
      if c.utf8Size ≤ count + 1 then
        (cutBytes? (count + 1 - c.utf8Size) rest).map fun parts => (c :: parts.1, parts.2)
      else none

/-- Both parts together are the text, and the first one has the bytes that were asked for. -/
theorem cutBytes?_eq_some_iff {count : Nat} {text front rest : List Char} :
    cutBytes? count text = some (front, rest) ↔ text = front ++ rest ∧ byteLength front = count := by
  fun_induction cutBytes? count text generalizing front with
  | case1 text =>
      cases front with
      | nil => simp [eq_comm]
      | cons c front =>
          have positive := c.utf8Size_pos
          rw [byteLength_cons]
          exact iff_of_false nofun (by omega)
  | case2 => cases front <;> simp
  | case3 count c text within inductionHypothesis =>
      cases front with
      | nil => simp
      | cons d front =>
          simp only [Option.map_eq_some_iff, Prod.exists, Prod.mk.injEq, List.cons.injEq, byteLength_cons,
            List.cons_append]
          constructor
          · rintro ⟨others, last, found, ⟨rfl, rfl⟩, rfl⟩
            obtain ⟨shape, size⟩ := inductionHypothesis.1 found
            exact ⟨⟨rfl, shape⟩, by omega⟩
          · rintro ⟨⟨rfl, shape⟩, size⟩
            exact ⟨front, rest, inductionHypothesis.2 ⟨shape, by omega⟩, ⟨rfl, rfl⟩, rfl⟩
  | case4 count c text outside =>
      refine iff_of_false nofun ?_
      rintro ⟨shape, size⟩
      cases front with
      | nil => cases size
      | cons d front =>
          obtain ⟨rfl, -⟩ := List.cons.inj shape
          rw [byteLength_cons] at size
          omega

/-- Behind the bytes of its front a text is cut into the front and the rest. -/
theorem cutBytes?_append (front rest : List Char) :
    cutBytes? (byteLength front) (front ++ rest) = some (front, rest) :=
  cutBytes?_eq_some_iff.2 ⟨rfl, rfl⟩

/-- A text can be cut exactly where a character begins and at its end. -/
theorem isSome_cutBytes?_iff {count : Nat} {text : List Char} :
    (cutBytes? count text).isSome = true ↔ (⟨count⟩ : String.Pos.Raw).IsValid (String.ofList text) := by
  simp only [Option.isSome_iff_exists, Prod.exists, cutBytes?_eq_some_iff,
    String.Pos.Raw.isValid_iff_exists_append]
  constructor
  · rintro ⟨front, rest, rfl, rfl⟩
    refine ⟨String.ofList front, String.ofList rest, String.ofList_append, ?_⟩
    rw [← utf8ByteSize_ofList]
    rfl
  · rintro ⟨front, rest, whole, place⟩
    refine ⟨front.toList, rest.toList, ?_, ?_⟩
    · rw [← String.toList_append, ← whole, String.toList_ofList]
    · rw [← utf8ByteSize_ofList, String.ofList_toList]
      exact (congrArg String.Pos.Raw.byteIdx place).symm

end ElementQuery.Text
