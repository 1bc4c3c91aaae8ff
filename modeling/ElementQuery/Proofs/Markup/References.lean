/-
This file holds the notation of character references and shows which of them are replaced when a text is read:
those of the notation, and numeric references with a plus sign before their digits.
-/

import ElementQuery.Proofs.Markup.Escaping
import ElementQuery.Proofs.Text.Integers

namespace ElementQuery.Markup

/-- Between an ampersand and a semicolon a character is referred to by one of six names, or by its number in
decimal or hexadecimal digits, with one of the given signs before the digits. -/
inductive RefersTo (signs : List (List Char)) : List Char → Char → Prop
  | ampersand : RefersTo signs "amp".toList '&'
  | less : RefersTo signs "lt".toList '<'
  | greater : RefersTo signs "gt".toList '>'
  | quote : RefersTo signs "quot".toList '\x22'
  | apostrophe : RefersTo signs "apos".toList '\x27'
  | space : RefersTo signs "nbsp".toList '\u00a0'
  | decimal {sign digits : List Char} {c : Char} (listed : sign ∈ signs)
      (numeral : Text.Numeral digits c.toNat) : RefersTo signs ('#' :: (sign ++ digits)) c
  | hexadecimal {letter : Char} {sign digits : List Char} {c : Char}
      (marked : letter = 'x' ∨ letter = 'X') (listed : sign ∈ signs)
      (numeral : Text.HexNumeral digits c.toNat) :
      RefersTo signs ('#' :: letter :: (sign ++ digits)) c

/-- In the notation nothing stands before the digits. -/
def unsigned : List (List Char) := [[]]

/-- What is taken for a numeric reference may have a plus sign before the digits. -/
def perhapsPlus : List (List Char) := [[], ['+']]

/-- From left to right, a text is decoded by replacing every reference by its character and keeping every
character that begins none. -/
inductive Decodes (refersTo : List Char → Char → Prop) : List Char → List Char → Prop
  | nothing : Decodes refersTo [] []
  | reference {body rest result : List Char} {c : Char} (known : refersTo body c)
      (later : Decodes refersTo rest result) :
      Decodes refersTo ('&' :: (body ++ ';' :: rest)) (c :: result)
  | plain {c : Char} {rest result : List Char}
      (strange : ∀ body after d, c :: rest = '&' :: (body ++ ';' :: after) → ¬ refersTo body d)
      (later : Decodes refersTo rest result) : Decodes refersTo (c :: rest) (c :: result)

section Names

variable {signs : List (List Char)} {body rest text result : List Char} {c : Char}

theorem character?_eq_some_iff {code : Nat} : character? code = some c ↔ code = c.toNat := by
  unfold character?
  constructor
  · intro known
    split at known
    · rename_i valid
      obtain rfl := Option.some.inj known
      rw [Char.ofNat, dif_pos valid]
      rfl
    · cases known
  · intro same
    have valid : c.toNat.isValidChar := c.valid
    rw [same, if_pos valid, Char.ofNat_toNat]

theorem toNat_le_lastCodePoint (c : Char) : c.toNat ≤ lastCodePoint := by
  rcases c.valid with low | high
  · exact Nat.le_of_lt (Nat.lt_trans low (by decide))
  · exact Nat.le_of_lt_succ high.2

/-- The digits of a reference are read as a character when they are the numeral of its number, perhaps with a
plus sign before them. -/
theorem readCharacter?_eq_some_iff {base : Nat} {numeral : List Char → Nat → Prop}
    (reads : ∀ digits value, Text.readDigits? base digits = some value ↔ numeral digits value) :
    (Text.readNatural? base lastCodePoint text).bind character? = some c ↔
      ∃ sign ∈ perhapsPlus, ∃ digits, text = sign ++ digits ∧ numeral digits c.toNat := by
  simp only [Option.bind_eq_some_iff, Text.readNatural?_eq_some_iff, character?_eq_some_iff]
  constructor
  · intro known
    obtain ⟨value, ⟨⟨digits, written, read⟩, -⟩, rfl⟩ := known
    rcases written with bare | plus
    · exact ⟨[], by decide, digits, bare, (reads _ _).1 read⟩
    · exact ⟨['+'], by decide, digits, plus, (reads _ _).1 read⟩
  · intro known
    obtain ⟨sign, listed, digits, rfl, written⟩ := known
    have signed : sign ++ digits = digits ∨ sign ++ digits = '+' :: digits := by
      rcases List.mem_pair.1 listed with rfl | rfl
      · exact .inl rfl
      · exact .inr rfl
    exact ⟨c.toNat, ⟨⟨digits, signed, (reads _ _).2 written⟩, toNat_le_lastCodePoint c⟩, rfl⟩

theorem head?_namedReferences : ∀ entry ∈ namedReferences, entry.1.toList.head? ≠ some '#' := by
  decide

/-- A text that begins with a number sign is no name. -/
theorem resolve?_number : resolve? ('#' :: text) = numericReference? ('#' :: text) := by
  have unnamed : (namedReferences.find? fun entry => entry.1.toList == '#' :: text) = none := by
    rw [List.find?_eq_none]
    intro entry member same
    apply head?_namedReferences entry member
    rw [beq_iff_eq.1 same]
    rfl
  rw [resolve?, unnamed]

/-- Before the digits of a decimal reference stands no letter. -/
theorem numericReference?_decimal (bare : ∀ letter ∈ text.head?, letter ≠ 'x' ∧ letter ≠ 'X') :
    numericReference? ('#' :: text) = (Text.readNatural? 10 lastCodePoint text).bind character? := by
  unfold numericReference?
  split
  case h_1 rest shape =>
    obtain rfl := (List.cons.inj shape).2
    exact absurd rfl (bare 'x' rfl).1
  case h_2 rest shape =>
    obtain rfl := (List.cons.inj shape).2
    exact absurd rfl (bare 'X' rfl).2
  case h_3 rest small capital shape =>
    obtain rfl := (List.cons.inj shape).2
    rfl
  case h_4 other =>
    exact absurd rfl (other text)

theorem refersTo_of_mem_namedReferences {name : String} (listed : (name, c) ∈ namedReferences) :
    RefersTo signs name.toList c := by
  simp only [namedReferences, List.mem_cons, Prod.mk.injEq, List.not_mem_nil, or_false] at listed
  rcases listed with same | same | same | same | same | same
  · exact same.1 ▸ same.2 ▸ .ampersand
  · exact same.1 ▸ same.2 ▸ .less
  · exact same.1 ▸ same.2 ▸ .greater
  · exact same.1 ▸ same.2 ▸ .quote
  · exact same.1 ▸ same.2 ▸ .apostrophe
  · exact same.1 ▸ same.2 ▸ .space

theorem refersTo_of_numericReference? (read : numericReference? body = some c) :
    RefersTo perhapsPlus body c := by
  unfold numericReference? at read
  split at read
  · obtain ⟨sign, listed, digits, rfl, written⟩ :=
      (readCharacter?_eq_some_iff fun _ _ => Text.readHexDigits?_eq_some_iff).1 read
    exact .hexadecimal (.inl rfl) listed written
  · obtain ⟨sign, listed, digits, rfl, written⟩ :=
      (readCharacter?_eq_some_iff fun _ _ => Text.readHexDigits?_eq_some_iff).1 read
    exact .hexadecimal (.inr rfl) listed written
  · obtain ⟨sign, listed, digits, rfl, written⟩ :=
      (readCharacter?_eq_some_iff fun _ _ => Text.readDigits?_eq_some_iff).1 read
    exact .decimal listed written
  · cases read

/-- Before decimal digits stands no letter, perhaps a plus sign. -/
theorem head?_decimal {sign digits : List Char} {value : Nat} (listed : sign ∈ perhapsPlus)
    (numeral : Text.Numeral digits value) :
    ∀ letter ∈ (sign ++ digits).head?, letter ≠ 'x' ∧ letter ≠ 'X' := by
  intro letter member
  rcases List.mem_pair.1 listed with rfl | rfl
  · have digit : letter.isDigit = true := numeral.digits letter (List.mem_of_mem_head? member)
    constructor
    · intro same
      exact absurd (same ▸ digit) (by decide)
    · intro same
      exact absurd (same ▸ digit) (by decide)
  · obtain rfl := Option.some.inj member
    decide

theorem RefersTo.resolve?_eq (refers : RefersTo perhapsPlus body c) : resolve? body = some c := by
  cases refers with
  | ampersand | less | greater | quote | apostrophe | space => rfl
  | @decimal sign digits _ listed numeral =>
      rw [resolve?_number, numericReference?_decimal (head?_decimal listed numeral)]
      exact (readCharacter?_eq_some_iff fun _ _ => Text.readDigits?_eq_some_iff).2
        ⟨sign, listed, digits, rfl, numeral⟩
  | @hexadecimal letter sign digits _ marked listed numeral =>
      have read := (readCharacter?_eq_some_iff fun _ _ => Text.readHexDigits?_eq_some_iff).2
        ⟨sign, listed, digits, rfl, numeral⟩
      rw [resolve?_number]
      rcases marked with rfl | rfl
      · exact read
      · exact read

/-- A text stands for a character when it refers to it, perhaps with a plus sign before its digits. -/
theorem resolve?_eq_some_iff : resolve? body = some c ↔ RefersTo perhapsPlus body c := by
  constructor
  · intro read
    unfold resolve? at read
    split at read
    · rename_i entry found
      obtain rfl := Option.some.inj read
      have same := List.find?_some found
      rw [← beq_iff_eq.1 same]
      exact refersTo_of_mem_namedReferences (List.mem_of_find?_eq_some found)
    · exact refersTo_of_numericReference? read
  · exact RefersTo.resolve?_eq

theorem hexDigits_ne : ∀ c ∈ Text.hexDigits, c ≠ ';' :=
  List.all_iff_forall_prop.1 (by decide)

/-- What refers to a character holds no semicolon, so that the next semicolon ends it. -/
theorem RefersTo.solid (refers : RefersTo perhapsPlus body c) : ';' ∉ body := by
  have unsigned : ∀ sign ∈ perhapsPlus, ';' ∉ sign := by decide
  cases refers with
  | ampersand | less | greater | quote | apostrophe | space => decide
  | @decimal sign digits _ listed numeral =>
      intro member
      rcases List.mem_append.1 ((List.mem_cons.1 member).resolve_left (by decide)) with front | back
      · exact unsigned sign listed front
      · exact absurd (numeral.digits ';' back) (by decide)
  | @hexadecimal letter sign digits _ marked listed numeral =>
      intro member
      have behind := (List.mem_cons.1 member).resolve_left (by decide)
      rcases List.mem_cons.1 behind with same | later
      · rcases marked with rfl | rfl
        · exact absurd same (by decide)
        · exact absurd same (by decide)
      · rcases List.mem_append.1 later with front | back
        · exact unsigned sign listed front
        · exact hexDigits_ne _ (numeral.digits ';' back) rfl

/-- Behind an ampersand a reference is found when its text and a semicolon follow. -/
theorem reference?_eq_some_iff :
    reference? text = some (c, rest) ↔ ∃ body, text = body ++ ';' :: rest ∧ RefersTo perhapsPlus body c := by
  constructor
  · intro found
    simp only [reference?, Option.bind_eq_some_iff, Option.map_eq_some_iff, Prod.mk.injEq] at found
    obtain ⟨parts, cut, character, read, rfl, rfl⟩ := found
    have whole : text = parts.1 ++ [';'] ++ parts.2 := Text.cutAt?_sound cut
    rw [List.append_assoc] at whole
    exact ⟨parts.1, whole, resolve?_eq_some_iff.1 read⟩
  · intro written
    obtain ⟨body, rfl, refers⟩ := written
    rw [reference?, Text.cutAt?_mark refers.solid, Option.bind_some, refers.resolve?_eq]
    rfl

end Names

section Texts

variable {first second : List Char → Char → Prop} {text result : List Char}

theorem decode_nil : decode [] = [] := by
  rw [decode]

/-- An ampersand that begins no reference stays. -/
theorem decode_ampersand {rest : List Char} (none : reference? rest = none) :
    decode ('&' :: rest) = '&' :: decode rest := by
  rw [decode, if_pos rfl]
  split
  · rename_i found
    rw [none] at found
    cases found
  · rfl

/-- A text decodes to what is read for it. -/
theorem decodes_decode (text : List Char) : Decodes (RefersTo perhapsPlus) text (decode text) := by
  induction text using decode.induct with
  | case1 =>
      rw [decode_nil]
      exact .nothing
  | case2 rest c after found inductionHypothesis =>
      obtain ⟨body, rfl, refers⟩ := reference?_eq_some_iff.1 found
      rw [decode_reference refers.solid refers.resolve?_eq]
      exact .reference refers inductionHypothesis
  | case3 rest none inductionHypothesis =>
      rw [decode_ampersand none]
      refine .plain ?_ inductionHypothesis
      intro body after d shape refers
      obtain rfl := (List.cons.inj shape).2
      rw [reference?_eq_some_iff.2 ⟨body, rfl, refers⟩] at none
      cases none
  | case4 c rest plain inductionHypothesis =>
      rw [decode_cons plain]
      refine .plain ?_ inductionHypothesis
      intro body after d shape
      exact absurd (List.cons.inj shape).1 plain

/-- A text decodes to nothing else. -/
theorem Decodes.decode_eq (decodes : Decodes (RefersTo perhapsPlus) text result) :
    decode text = result := by
  induction decodes with
  | nothing => exact decode_nil
  | reference known later inductionHypothesis =>
      rw [decode_reference known.solid known.resolve?_eq, inductionHypothesis]
  | @plain c rest result strange later inductionHypothesis =>
      by_cases same : c = '&'
      · subst same
        have none : reference? rest = none := by
          rw [Option.eq_none_iff_forall_ne_some]
          intro found same
          obtain ⟨body, shape, refers⟩ := reference?_eq_some_iff.1 same
          exact strange body found.2 found.1 (congrArg ('&' :: ·) shape) refers
        rw [decode_ampersand none, inductionHypothesis]
      · rw [decode_cons same, inductionHypothesis]

/-- How a text decodes depends only on what in it refers to a character. -/
theorem Decodes.congr (decodes : Decodes first text result)
    (same : ∀ body after c, '&' :: (body ++ ';' :: after) <:+ text → (first body c ↔ second body c)) :
    Decodes second text result := by
  induction decodes with
  | nothing => exact .nothing
  | @reference body rest result c known later inductionHypothesis =>
      have whole := same body rest c List.suffix_rfl
      apply Decodes.reference (whole.1 known)
      apply inductionHypothesis
      intro other after d inside
      have deeper : rest <:+ '&' :: (body ++ ';' :: rest) := ⟨'&' :: (body ++ [';']), by simp⟩
      exact same other after d (inside.trans deeper)
  | @plain c rest result strange later inductionHypothesis =>
      apply Decodes.plain
      · intro body after d shape known
        exact strange body after d shape ((same body after d (shape ▸ List.suffix_rfl)).2 known)
      · apply inductionHypothesis
        intro body after d inside
        exact same body after d (inside.trans (List.suffix_cons c rest))

/-- The beginnings of numeric references, up to the sign. -/
def openings : List (List Char) := [['&', '#'], ['&', '#', 'x'], ['&', '#', 'X']]

/-- A reference may have signs of another kind when the sign that it begins with is one of them. -/
theorem RefersTo.imp_of_openings {signs more : List (List Char)} {body : List Char} {c : Char}
    (refers : RefersTo signs body c) (allowed : ∀ sign ∈ signs, ∀ opening ∈ openings,
      opening ++ sign <+: '&' :: body → sign ∈ more) : RefersTo more body c := by
  cases refers with
  | ampersand => exact .ampersand
  | less => exact .less
  | greater => exact .greater
  | quote => exact .quote
  | apostrophe => exact .apostrophe
  | space => exact .space
  | @decimal sign digits _ listed numeral =>
      exact .decimal (allowed sign listed ['&', '#'] (by decide) ⟨digits, by simp⟩) numeral
  | @hexadecimal letter sign digits _ marked listed numeral =>
      refine .hexadecimal marked ?_ numeral
      rcases marked with rfl | rfl
      · exact allowed sign listed ['&', '#', 'x'] (by decide) ⟨digits, by simp⟩
      · exact allowed sign listed ['&', '#', 'X'] (by decide) ⟨digits, by simp⟩

/-- A reference of the notation is one with more signs allowed. -/
theorem RefersTo.imp {signs more : List (List Char)} {body : List Char} {c : Char}
    (refers : RefersTo signs body c) (allowed : ∀ sign ∈ signs, sign ∈ more) : RefersTo more body c :=
  refers.imp_of_openings fun sign listed _ _ _ => allowed sign listed

/-- The beginnings of numeric references with a plus sign. -/
def plusOpenings : List String := ["&#+", "&#x+", "&#X+"]

/-- Without a plus sign, what refers to a character is of the notation. -/
theorem RefersTo.bare {body : List Char} {c : Char} (refers : RefersTo perhapsPlus body c)
    (free : ∀ opening ∈ plusOpenings, ¬ opening.toList <+: '&' :: body) : RefersTo unsigned body c := by
  refine refers.imp_of_openings fun sign listed opening known begins => ?_
  rcases List.mem_pair.1 listed with rfl | rfl
  · exact List.mem_cons_self
  · have named : String.ofList (opening ++ ['+']) ∈ plusOpenings :=
      (by decide : ∀ opening ∈ openings, String.ofList (opening ++ ['+']) ∈ plusOpenings) opening known
    exact absurd (by rwa [String.toList_ofList]) (free _ named)

/-- Reading a text replaces, from left to right, the references of the notation and the numeric references
with a plus sign before their digits, and keeps every other character. Where no plus sign stands at that
place, it replaces the references of the notation and nothing else. -/
theorem decodeText_eq_iff_decodes (text result : String) :
    (decodeText text = result ↔ Decodes (RefersTo perhapsPlus) text.toList result.toList) ∧
    ((∀ opening ∈ plusOpenings, ¬ opening.toList <:+: text.toList) →
      (decodeText text = result ↔ Decodes (RefersTo unsigned) text.toList result.toList)) := by
  have letters : decodeText text = result ↔ decode text.toList = result.toList := by
    rw [decodeText, ← String.toList_inj, String.toList_ofList]
  have whole : decodeText text = result ↔
      Decodes (RefersTo perhapsPlus) text.toList result.toList := by
    rw [letters]
    constructor
    · intro same
      exact same ▸ decodes_decode text.toList
    · exact Decodes.decode_eq
  refine ⟨whole, fun free => ?_⟩
  have same : ∀ body after c, '&' :: (body ++ ';' :: after) <:+ text.toList →
      (RefersTo perhapsPlus body c ↔ RefersTo unsigned body c) := by
    intro body after c inside
    constructor
    · intro refers
      apply refers.bare
      intro opening listed begins
      apply free opening listed
      have longer : '&' :: body <+: '&' :: (body ++ ';' :: after) := ⟨';' :: after, rfl⟩
      exact (begins.trans longer).isInfix.trans inside.isInfix
    · intro refers
      exact refers.imp (by decide)
  rw [whole]
  constructor
  · intro decodes
    exact decodes.congr same
  · intro decodes
    exact decodes.congr fun body after c inside => (same body after c inside).symm

/-- Leading zeros do not matter, a surrogate stands for no character, and a reference may begin inside of what
is none. -/
theorem decodeText_eq_iff_decodes_of_mixture :
    (∀ opening ∈ plusOpenings, ¬ opening.toList <:+: "&lt;&#x00042;&#55296;&a&#X4a;+&amp".toList) ∧
    Decodes (RefersTo unsigned) "&lt;&#x00042;&#55296;&a&#X4a;+&amp".toList
      "<B&#55296;&aJ+&amp".toList := by
  have free : ∀ opening ∈ plusOpenings,
      ¬ opening.toList <:+: "&lt;&#x00042;&#55296;&a&#X4a;+&amp".toList := by
    decide +kernel
  exact ⟨free, ((decodeText_eq_iff_decodes _ _).2 free).1 (by decide +kernel)⟩

/-- In the notation no plus sign stands before digits. -/
theorem not_refersTo_plus {body : List Char} {c : Char} : ¬ RefersTo unsigned ('#' :: '+' :: body) c := by
  intro refers
  generalize shape : '#' :: '+' :: body = text at refers
  cases refers with
  | ampersand | less | greater | quote | apostrophe | space =>
      exact absurd (List.cons.inj shape).1 (by decide)
  | @decimal sign digits _ listed numeral =>
      obtain rfl := List.mem_singleton.1 listed
      obtain rfl : '+' :: body = digits := (List.cons.inj shape).2
      exact absurd numeral.head_isDigit (by decide)
  | @hexadecimal letter sign digits _ marked listed numeral =>
      have same := (List.cons.inj (List.cons.inj shape).2).1
      rcases marked with rfl | rfl
      · exact absurd same (by decide)
      · exact absurd same (by decide)

/-- A numeric reference with a plus sign is replaced, though it is none of the notation. -/
theorem decodeText_of_plus : decodeText "&#+65;" = "A" ∧
    ¬ Decodes (RefersTo unsigned) "&#+65;".toList (decodeText "&#+65;").toList := by
  have read : decodeText "&#+65;" = "A" := by decide +kernel
  rw [read]
  constructor
  · rfl
  · intro decodes
    have letters : "&#+65;".toList = '&' :: ("#+65".toList ++ ';' :: []) := by decide
    rw [letters] at decodes
    generalize shape : '&' :: ("#+65".toList ++ ';' :: []) = text at decodes
    cases decodes with
    | @reference body rest result c known later =>
        have solid := (known.imp (by decide : ∀ sign ∈ unsigned, sign ∈ perhapsPlus)).solid
        have cut : Text.cutAt? [';'] (body ++ ';' :: rest) = some (body, rest) := Text.cutAt?_mark solid
        rw [← (List.cons.inj shape).2, Text.cutAt?_mark (by decide)] at cut
        obtain rfl := (Prod.mk.inj (Option.some.inj cut)).1
        exact not_refersTo_plus known
    | plain strange later =>
        exact absurd (List.cons.inj shape).1 (by decide)

end Texts

end ElementQuery.Markup
