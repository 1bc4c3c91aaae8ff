/-
This file holds the language that both readers of selectors share: its compounds and the joints between
them, their texts, and what the strict and the lenient reader are to make of each.
-/

import ElementQuery.Group.Reader
import ElementQuery.Selector.Reader
import ElementQuery.Proofs.Text.Search
import Mathlib.Tactic.Tauto

namespace ElementQuery

/-- The character by which a combinator is written; descendants are told by blanks alone. -/
def Selector.Combinator.sign : Selector.Combinator → List Char
  | .descendant => []
  | .child => ['>']
  | .nextSibling => ['+']
  | .laterSibling => ['~']

/-- The combinator of a group that has the same sign. -/
def Selector.Combinator.lenient : Selector.Combinator → Group.Combinator
  | .descendant => .descendant
  | .child => .child
  | .nextSibling => .adjacent
  | .laterSibling => .general

/-- The character that an operator puts before the equals sign. -/
def Group.Operator.sign : Group.Operator → List Char
  | .exact => []
  | .beginning => ['^']
  | .ending => ['$']
  | .substring => ['*']

/-- The strict test that has the same sign as an operator. -/
def Group.Operator.strict (name value : String) : Group.Operator → Selector.AttributeTest
  | .exact => .equals name value
  | .beginning => .beginsWith name value
  | .ending => .endsWith name value
  | .substring => .contains name value

namespace Common

/-- A name goes on with ASCII letters, digits, hyphens and underscores. -/
def isNameLetter (c : Char) : Bool := c.isAlphanum || c == '-' || c == '_'

theorem ne_of_isNameLetter {c other : Char} (letter : isNameLetter c = true)
    (sign : isNameLetter other = false) : c ≠ other := by
  rintro rfl
  rw [letter] at sign
  cases sign

theorem isNameLetter_of_isAlpha {c : Char} (letter : c.isAlpha = true) : isNameLetter c = true := by
  simp [isNameLetter, Char.isAlphanum, letter]

theorem isNameChar_of_isNameLetter {c : Char} (letter : isNameLetter c = true) :
    Selector.isNameChar c = true ∧ Group.isNameChar c = true := by
  simp only [isNameLetter, Char.isAlphanum, Bool.or_eq_true] at letter
  simp only [Selector.isNameChar, Selector.isNameStart, Group.isNameChar, Char.isAlphanum,
    Bool.or_eq_true]
  tauto

theorem isNameLetter_ascii : ∀ n < 128, isNameLetter (Char.ofNat n) = true →
    Text.isBlank (Char.ofNat n) = false ∧ (Char.ofNat n).toLower ≠ '*' := by
  decide +kernel

theorem isNameLetter_apart {c : Char} (letter : isNameLetter c = true) :
    Text.isBlank c = false ∧ c.toLower ≠ '*' := by
  have ascii : c.toNat < 128 := by
    simp only [isNameLetter, Char.isAlphanum, Bool.or_eq_true, beq_iff_eq] at letter
    rcases letter with ((letter | digit) | rfl) | rfl
    · exact Text.toNat_lt_of_isAlpha letter
    · exact Text.toNat_lt_of_isDigit digit
    · decide
    · decide
  revert letter
  exact Text.forall_ascii isNameLetter_ascii ascii

theorem isBlank_of_isNameLetter {c : Char} (letter : isNameLetter c = true) :
    Text.isBlank c = false :=
  (isNameLetter_apart letter).1

/-- Everything in a compound but its tag begins with one of these signs. -/
def opensItem (c : Char) : Bool := c == '.' || c == '[' || c == ':'

/-- Behind a compound stands a joint, or a parenthesis is closed. -/
def endsCompound (c : Char) : Bool :=
  c == ')' || c == '>' || c == '+' || c == '~' || Text.isAsciiBlank c

/-- A compound begins with a letter, a star or the sign of an item. -/
def opensCompound (c : Char) : Bool := isNameLetter c || c == '*' || opensItem c

theorem ne_of_opensCompound {c other : Char} (opens : opensCompound c = true)
    (sign : opensCompound other = false) : c ≠ other := by
  rintro rfl
  rw [opens] at sign
  cases sign

theorem isBlank_of_opensCompound {c : Char} (opens : opensCompound c = true) :
    Text.isBlank c = false := by
  simp only [opensCompound, opensItem, Bool.or_eq_true, beq_iff_eq] at opens
  rcases opens with (letter | rfl) | (rfl | rfl) | rfl
  · exact isBlank_of_isNameLetter letter
  all_goals decide

/-- A text goes on with something that opens, or a compound ends here. -/
def Stops (text : List Char) : Prop := ∀ c ∈ text.head?, (opensItem c || endsCompound c) = true

/-- A compound ends here. -/
def Ends (text : List Char) : Prop := ∀ c ∈ text.head?, endsCompound c = true

theorem Ends.stops {text : List Char} (ends : Ends text) : Stops text := by
  intro c member
  rw [ends c member, Bool.or_true]

theorem isNameChar_of_stop {c : Char} (stop : (opensItem c || endsCompound c) = true) :
    Selector.isNameChar c = false ∧ Group.isNameChar c = false ∧ c ≠ '(' := by
  simp only [opensItem, endsCompound, Text.isAsciiBlank, Bool.or_eq_true, beq_iff_eq] at stop
  rcases stop with ((rfl | rfl) | rfl) | (((rfl | rfl) | rfl) | rfl) | (((rfl | rfl) | rfl) | rfl) | rfl
    <;> decide

/-- A name begins with an ASCII letter. -/
def isName (text : List Char) : Bool := text.head?.any Char.isAlpha && text.all isNameLetter

section Names

variable {text : List Char}

theorem exists_of_isName (valid : isName text = true) :
    ∃ c rest, text = c :: rest ∧ c.isAlpha = true := by
  cases text with
  | nil => cases valid
  | cons c rest => exact ⟨c, rest, rfl, (Bool.and_eq_true_iff.1 valid).1⟩

theorem isNameLetter_of_isName (valid : isName text = true) : ∀ c ∈ text, isNameLetter c = true :=
  List.all_eq_true.1 (Bool.and_eq_true_iff.1 valid).2

theorem ne_nil_of_isName (valid : isName text = true) : text ≠ [] := by
  rintro rfl
  cases valid

theorem solid_of_isName (valid : isName text = true) : Text.Solid text :=
  .of_all (ne_nil_of_isName valid) fun c member =>
    isBlank_of_isNameLetter (isNameLetter_of_isName valid c member)

end Names

structure Name where
  text : List Char
  valid : isName text = true

def Name.string (name : Name) : String := String.ofList name.text

/-- A value stands between two like quotes, is not empty and does not hold this quote. -/
structure Quoted where
  quote : Char
  letters : List Char
  isQuote : Group.Nesting.isQuote quote = true
  nonempty : letters ≠ []
  free : quote ∉ letters

namespace Quoted

def text (value : Quoted) : List Char := value.quote :: (value.letters ++ [value.quote])

def string (value : Quoted) : String := String.ofList value.letters

theorem text_append (value : Quoted) (rest : List Char) :
    value.text ++ rest = value.quote :: (value.letters ++ value.quote :: rest) := by
  simp [text]

theorem quote_eq (value : Quoted) : value.quote = '\x22' ∨ value.quote = '\x27' := by
  simpa [Group.Nesting.isQuote] using value.isQuote

theorem isBlank_quote (value : Quoted) : Text.isBlank value.quote = false := by
  rcases value.quote_eq with same | same <;> rw [same] <;> decide

theorem solid (value : Quoted) : Text.Solid value.text :=
  .between value.isBlank_quote value.isBlank_quote

theorem string_ne_empty (value : Quoted) : value.string ≠ "" := by
  simpa [string] using value.nonempty

end Quoted

/-- An item of a compound has a text, which opens with a sign, and a meaning for each reader: to the
strict one it is a simple selector, to the lenient one a fragment. -/
class Spelled (A : Type) where
  text : A → List Char
  strict : A → Selector.Simple
  lenient : A → Group.Fragment
  opens : ∀ item, ∃ c rest, text item = c :: rest ∧ opensItem c = true
  solid : ∀ item, Text.Solid (text item)

inductive Tag where
  | star
  | named (name : Name)

namespace Tag

def text : Tag → List Char
  | .star => ['*']
  | .named name => name.text

theorem solid : ∀ tag : Tag, Text.Solid tag.text
  | .star => .single (by decide)
  | .named name => solid_of_isName name.valid

def strict : Tag → Selector.Simple
  | .star => .universal
  | .named name => .tag (Text.lower name.string)

def lenient : Tag → String
  | .star => "*"
  | .named name => Text.lower name.string

end Tag

/-- A compound has a tag, or something after it, or both. -/
structure Compound (A : Type) where
  tag : Option Tag
  items : List A
  nonempty : tag.isSome = true ∨ items ≠ []

section Items

variable {A : Type} [Spelled A] {rest : List Char}

/-- Behind an item stands the sign of the next one, or the compound ends. -/
theorem stops_items {items : List A} (ends : Ends rest) :
    Stops ((items.map Spelled.text).flatten ++ rest) := by
  cases items with
  | nil => exact ends.stops
  | cons item items =>
      obtain ⟨c, others, shape, opens⟩ := Spelled.opens item
      intro d first
      rw [List.map_cons, List.flatten_cons, shape] at first
      obtain rfl := Option.some.inj first
      rw [opens, Bool.true_or]

theorem stops_flatten {items : List A} : Stops (items.map Spelled.text).flatten := by
  rw [← List.append_nil (items.map Spelled.text).flatten]
  exact stops_items (by simp [Ends])

end Items

namespace Compound

variable {A : Type} [Spelled A]

/-- The texts of the tag and of each item. -/
def pieces (compound : Compound A) : List (List Char) :=
  compound.tag.toList.map Tag.text ++ compound.items.map Spelled.text

def text (compound : Compound A) : List Char := compound.pieces.flatten

theorem pieces_ne_nil (compound : Compound A) : compound.pieces ≠ [] := by
  intro empty
  obtain ⟨tagless, itemless⟩ := List.append_eq_nil_iff.1 empty
  rcases compound.nonempty with tagged | others
  · simp [Option.toList_eq_nil_iff.1 (List.map_eq_nil_iff.1 tagless)] at tagged
  · exact others (List.map_eq_nil_iff.1 itemless)

theorem opens (compound : Compound A) :
    ∃ c others, compound.text = c :: others ∧ opensCompound c = true := by
  obtain ⟨tag, items, nonempty⟩ := compound
  unfold text pieces
  cases tag with
  | some tag =>
      cases tag with
      | star => exact ⟨'*', _, rfl, rfl⟩
      | named name =>
          obtain ⟨c, rest, shape, letter⟩ := exists_of_isName name.valid
          refine ⟨c, rest ++ (items.map Spelled.text).flatten, ?_,
            by simp [opensCompound, isNameLetter_of_isAlpha letter]⟩
          simp [Tag.text, shape]
  | none =>
      cases items with
      | nil => simp at nonempty
      | cons item items =>
          obtain ⟨c, others, shape, sign⟩ := Spelled.opens item
          refine ⟨c, others ++ (items.map Spelled.text).flatten, ?_, by simp [opensCompound, sign]⟩
          simp [shape]

theorem forall_pieces {P : List Char → Prop} (tags : ∀ tag : Tag, P tag.text)
    (each : ∀ item : A, P (Spelled.text item)) (compound : Compound A) :
    ∀ piece ∈ compound.pieces, P piece := by
  intro piece member
  rcases List.mem_append.1 member with front | behind
  · obtain ⟨tag, -, rfl⟩ := List.mem_map.1 front
    exact tags tag
  · obtain ⟨item, -, rfl⟩ := List.mem_map.1 behind
    exact each item

/-- What goes over from texts to their concatenation holds of a compound when it holds of its tag and
its items. -/
theorem text_of_pieces {P : List Char → Prop} (nil : P [])
    (append : ∀ {first second : List Char}, P first → P second → P (first ++ second))
    (tags : ∀ tag : Tag, P tag.text) (each : ∀ item : A, P (Spelled.text item))
    (compound : Compound A) : P compound.text := by
  have known := compound.forall_pieces tags each
  unfold text
  generalize compound.pieces = pieces at known ⊢
  induction pieces with
  | nil => exact nil
  | cons piece pieces inductionHypothesis =>
      rw [List.flatten_cons]
      exact append (known piece List.mem_cons_self)
        (inductionHypothesis fun other member => known other (List.mem_cons_of_mem _ member))

theorem solid (compound : Compound A) : Text.Solid compound.text :=
  .flatten compound.pieces_ne_nil (compound.forall_pieces Tag.solid Spelled.solid)

def strict (compound : Compound A) : Selector.Compound :=
  compound.tag.toList.map Tag.strict ++ compound.items.map Spelled.strict

/-- A compound without a tag asks for every tag. -/
def step (combinator : Group.Combinator) (compound : Compound A) : Group.Step :=
  (compound.items.map Spelled.lenient).foldl Group.Step.add
    { combinator, compound := { tag := (compound.tag.map Tag.lenient).getD "*" } }

end Compound

/-- A test of a class or of the value of an attribute. -/
inductive Test where
  | hasClass (name : Name)
  | attribute (name : Name) (operator : Group.Operator) (value : Quoted)

/-- What stands between the brackets of an attribute test. -/
def comparison (name : Name) (operator : Group.Operator) (value : Quoted) : List Char :=
  name.text ++ operator.sign ++ '=' :: value.text

namespace Test

def text : Test → List Char
  | .hasClass name => '.' :: name.text
  | .attribute name operator value => '[' :: (comparison name operator value ++ [']'])

theorem attribute_append (name : Name) (operator : Group.Operator) (value : Quoted)
    (rest : List Char) : (Test.attribute name operator value).text ++ rest =
      '[' :: (comparison name operator value ++ ']' :: rest) := by
  simp [text]

def strict : Test → Selector.Simple
  | .hasClass name => .hasClass name.string
  | .attribute name operator value =>
      .attribute (operator.strict (Text.lower name.string) value.string)

def lenient : Test → Group.Fragment
  | .hasClass name => .hasClass name.string
  | .attribute name operator value =>
      .attribute ⟨Text.lower name.string, some (operator, value.string)⟩

instance : Spelled Test where
  text := text
  strict := strict
  lenient := lenient
  opens
    | .hasClass name => ⟨'.', name.text, rfl, rfl⟩
    | .attribute name operator value => ⟨'[', comparison name operator value ++ [']'], rfl, rfl⟩
  solid
    | .hasClass name => (Text.Solid.single (by decide) : Text.Solid ['.']).append
        (solid_of_isName name.valid)
    | .attribute _ _ _ => .between (by decide) (by decide)

end Test

/-- The pseudo-classes without an argument. -/
inductive Plain where
  | first (kin : Kin)
  | last (kin : Kin)
  | only (kin : Kin)
  | enabled
  | disabled

namespace Plain

def name : Plain → String
  | .first kin => "first" ++ kin.ending
  | .last kin => "last" ++ kin.ending
  | .only kin => "only" ++ kin.ending
  | .enabled => "enabled"
  | .disabled => "disabled"

def strict : Plain → Selector.PseudoClass
  | .first kin => .first kin
  | .last kin => .last kin
  | .only kin => .only kin
  | .enabled => .enabled
  | .disabled => .disabled

def lenient : Plain → Group.PseudoClass
  | .first kin => .first kin
  | .last kin => .last kin
  | .only kin => .only kin
  | .enabled => .enabled
  | .disabled => .disabled

theorem isName_name (pseudo : Plain) : isName pseudo.name.toList = true := by
  rcases pseudo with (_ | _) | (_ | _) | (_ | _) | _ | _ <;> decide

end Plain

/-- An integer of 32 bits, perhaps with a sign or with ASCII blanks in it. -/
structure Position where
  letters : List Char
  place : Int
  read : Text.readInteger? 32 (Progression.compact Text.isAsciiBlank letters) = some place

/-- An argument that the strict reader takes for a progression. -/
structure Counting where
  letters : List Char
  progression : Progression
  read : Selector.progression? letters = some progression

/-- A text in parentheses behind the name of a pseudo-class. -/
def argued (name argument : List Char) : List Char := ':' :: (name ++ '(' :: (argument ++ [')']))

theorem argued_append (name argument rest : List Char) :
    argued name argument ++ rest = ':' :: (name ++ '(' :: (argument ++ ')' :: rest)) := by
  simp [argued]

/-- A condition is a test or a pseudo-class; a compound of tests can be negated. -/
inductive Condition where
  | test (inner : Test)
  | plain (pseudo : Plain)
  | position (argument : Position)
  | ofType (argument : Counting)
  | negation (compound : Compound Test)

namespace Condition

def text : Condition → List Char
  | .test inner => inner.text
  | .plain pseudo => ':' :: pseudo.name.toList
  | .position argument => argued "nth-child".toList argument.letters
  | .ofType argument => argued "nth-of-type".toList argument.letters
  | .negation compound => argued "not".toList compound.text

def strict : Condition → Selector.Simple
  | .test inner => inner.strict
  | .plain pseudo => .pseudo pseudo.strict
  | .position argument => .pseudo (.nth .front .any ⟨0, argument.place⟩)
  | .ofType argument => .pseudo (.nth .front .sameTag argument.progression)
  | .negation compound => .negation [compound.strict]

def lenient : Condition → Group.Fragment
  | .test inner => inner.lenient
  | .plain pseudo => .pseudo pseudo.lenient
  | .position argument => .pseudo (.nth .any (.position argument.place.toNat))
  | .ofType argument => .pseudo (.nth .sameTag (Group.Argument.read argument.letters).value)
  | .negation compound => .pseudo (.negation (compound.step .descendant).compound)

theorem solid_argued (name argument : List Char) : Text.Solid (argued name argument) := by
  have shape : argued name argument = ':' :: ((name ++ '(' :: argument) ++ [')']) := by simp [argued]
  rw [shape]
  exact .between (by decide) (by decide)

instance : Spelled Condition where
  text := text
  strict := strict
  lenient := lenient
  opens
    | .test inner => Spelled.opens inner
    | .plain _ | .position _ | .ofType _ | .negation _ => ⟨':', _, rfl, rfl⟩
  solid
    | .test inner => Spelled.solid inner
    | .plain pseudo => (Text.Solid.single (by decide) : Text.Solid [':']).append
        (solid_of_isName pseudo.isName_name)
    | .position _ | .ofType _ | .negation _ => solid_argued _ _

end Condition

/-- Between two compounds stands the sign of a combinator, perhaps with ASCII blanks around it. -/
structure Joint where
  combinator : Selector.Combinator
  before : List Char
  after : List Char
  blank : (before ++ after).all Text.isAsciiBlank = true
  apart : combinator = .descendant → before ≠ []

def Joint.text (joint : Joint) : List Char := joint.before ++ joint.combinator.sign ++ joint.after

/-- A query is a compound, and behind each joint another one. -/
structure Query where
  head : Compound Condition
  tail : List (Joint × Compound Condition)

namespace Query

/-- The text behind the first compound. -/
def tailText (tail : List (Joint × Compound Condition)) : List Char :=
  tail.flatMap fun part => part.1.text ++ part.2.text

def text (query : Query) : List Char := query.head.text ++ tailText query.tail

theorem solid (query : Query) : Text.Solid query.text := by
  obtain ⟨head, tail⟩ := query
  unfold text
  induction tail generalizing head with
  | nil =>
      rw [tailText, List.flatMap_nil, List.append_nil]
      exact head.solid
  | cons part tail inductionHypothesis =>
      rw [tailText, List.flatMap_cons, List.append_assoc]
      exact head.solid.around (inductionHypothesis part.2) part.1.text

/-- The last compound is the subject, and the others follow in the chain. -/
def strict (query : Query) : Selector.Complex :=
  query.tail.foldl (fun complex part => complex.extend part.1.combinator part.2.strict)
    { subject := query.head.strict }

/-- The first compound is looked for below the scope. -/
def steps (query : Query) : List Group.Step :=
  query.head.step .descendant ::
    query.tail.map fun part => part.2.step part.1.combinator.lenient

end Query

end Common

end ElementQuery
