/-
This file groups a row of operands and operators by precedence, and says that a text of operands with
spaced operators between them is read as the one tree that does so.
-/

import ElementQuery.Proofs.Path.Phrase

namespace ElementQuery.Path

/-- An operand of one token. A name may be written like an operator or like a kind of node. -/
inductive Operand where
  | star
  | name (text : String) (valid : isPathName text = true)
  | number (decimal : Decimal)
  | literal (quote : Char) (text : String) (isQuote : quote = '\x22' ∨ quote = '\x27')
      (plain : quote ∉ text.toList)

namespace Operand

def text : Operand → String
  | star => "*"
  | name text _ => text
  | number decimal => String.ofList decimal.text
  | literal quote text _ _ => String.ofList (quote :: (text.toList ++ [quote]))

def token : Operand → Token
  | star => .star
  | name text _ => .name text
  | number decimal => .number decimal.value
  | literal _ text _ _ => .literal text

/-- A star or a name is a step to children, and a number or a literal is itself. -/
def expression : Operand → Expression
  | star => .step ⟨.child, .any, []⟩
  | name text _ => .step ⟨.child, .name text, []⟩
  | number decimal => .number decimal.value
  | literal _ text _ _ => .literal text

variable {operand : Operand}

theorem spells_text : Spells operand.text [operand.token] := by
  cases operand with
  | star => exact fun rest _ => tokensFrom_sign (by decide) rfl
  | name text valid => exact spells_name valid
  | number decimal => exact decimal.spells
  | literal quote text isQuote plain => exact spells_quoted isQuote String.toList_ofList plain

theorem reads_token : Reads .primary [operand.token] operand.expression := by
  cases operand with
  | star => exact .childStep .any
  | name text valid => exact .childStep (.name text)
  | number decimal => exact .number
  | literal quote text isQuote plain => exact .literal

end Operand

/-- A junction with white space on either side. -/
structure Spaced where
  junction : Junction
  before : String
  after : String
  front : Gap before
  back : Gap after

namespace Spaced

def text (sign : Spaced) : String := sign.before ++ sign.junction.symbol ++ sign.after

theorem sign_text (sign : Spaced) : Sign sign.text sign.junction.token :=
  .of_junction sign.front sign.back sign.junction

end Spaced

/-- The text of an operand and of those that are joined to it one after the other. -/
def rowText (first : Operand) : List (Spaced × Operand) → String
  | [] => first.text
  | (sign, operand) :: rest => first.text ++ sign.text ++ rowText operand rest

/-- The tokens of operands with junctions between them. -/
def rowTokens (first : Operand) : List (Junction × Operand) → List Token
  | [] => [first.token]
  | (junction, operand) :: rest => first.token :: junction.token :: rowTokens operand rest

/-- The junctions and operands of a row without its white space. -/
def bare (row : List (Spaced × Operand)) : List (Junction × Operand) :=
  row.map fun joined => (joined.1.junction, joined.2)

/-- A name or a star is an operand behind a junction and a junction behind an operand. -/
theorem spells_rowText (first : Operand) (row : List (Spaced × Operand)) :
    Spells (rowText first row) (rowTokens first (bare row)) := by
  induction row generalizing first with
  | nil => exact Operand.spells_text
  | cons joined row inductionHypothesis =>
      intro rest edge
      rw [rowText, String.toList_append, String.toList_append, List.append_assoc, List.append_assoc,
        Operand.spells_text _ (joined.1.sign_text.edge _), joined.1.sign_text.spells,
        inductionHypothesis joined.2 rest edge]
      rfl

theorem rowTokens_append (first operand : Operand) (junction : Junction)
    (row further : List (Junction × Operand)) :
    rowTokens first (row ++ (junction, operand) :: further) =
      rowTokens first row ++ junction.token :: rowTokens operand further := by
  induction row generalizing first with
  | nil => rfl
  | cons joined row inductionHypothesis =>
      rw [List.cons_append, rowTokens, rowTokens, inductionHypothesis]
      rfl

/-- The operands of a row, grouped by its junctions. -/
inductive OperatorTree where
  | leaf (operand : Operand)
  | join (junction : Junction) (left right : OperatorTree)

namespace OperatorTree

def first : OperatorTree → Operand
  | leaf operand => operand
  | join _ left _ => left.first

/-- The junctions from left to right, each with the operand behind it. -/
def row : OperatorTree → List (Junction × Operand)
  | leaf _ => []
  | join junction left right => left.row ++ (junction, right.first) :: right.row

def expression : OperatorTree → Expression
  | leaf operand => operand.expression
  | join junction left right => junction.join left.expression right.expression

/-- The level of the outermost junction. -/
def level : OperatorTree → Level
  | leaf _ => .primary
  | join junction _ _ => junction.level

/-- On the left of a junction stand junctions that tie at least as closely, and on its right only such
as tie more closely. -/
def Grouped : OperatorTree → Prop
  | leaf _ => True
  | join junction left right => junction.level.depth ≤ left.level.depth ∧
      junction.level.depth < right.level.depth ∧ left.Grouped ∧ right.Grouped

/-- A tree groups a row when it has the operands and junctions of the row in their order, and each
junction has tighter junctions below it, or on its left equally tight ones. -/
structure Groups (tree : OperatorTree) (start : Operand) (joined : List (Junction × Operand)) :
    Prop where
  first_eq : tree.first = start
  row_eq : tree.row = joined
  grouped : tree.Grouped

/-- What is grouped by precedence is read as it is grouped. -/
theorem Grouped.reads {tree : OperatorTree} (grouped : tree.Grouped) :
    Reads tree.level (rowTokens tree.first tree.row) tree.expression := by
  induction tree with
  | leaf operand => exact Operand.reads_token
  | join junction left right readsLeft readsRight =>
      obtain ⟨loose, tight, groupedLeft, groupedRight⟩ := grouped
      obtain ⟨operators, below, joins, known, next⟩ := @junction.operators?_level
      rw [first, row, rowTokens_append]
      exact .binary joins known ((readsLeft groupedLeft).loosen loose)
        ((readsRight groupedRight).loosen (by omega))

/-- An operand is joined to the right end of a tree, as far down as its junction ties more closely. -/
def push (junction : Junction) (last : Operand) : OperatorTree → OperatorTree
  | leaf operand => join junction (.leaf operand) (.leaf last)
  | join outer left right =>
      if junction.level.depth ≤ outer.level.depth then
        join junction (join outer left right) (.leaf last)
      else join outer left (right.push junction last)

/-- A tree with further operands joined to it one after the other. -/
def pushAll (tree : OperatorTree) (joined : List (Junction × Operand)) : OperatorTree :=
  joined.foldl (fun tree next => tree.push next.1 next.2) tree

section Pushing

variable {tree : OperatorTree} {junction : Junction} {last : Operand}

theorem first_push : (tree.push junction last).first = tree.first := by
  cases tree with
  | leaf operand => rfl
  | join outer left right =>
      rw [push]
      split <;> rfl

theorem row_push : (tree.push junction last).row = tree.row ++ [(junction, last)] := by
  induction tree with
  | leaf operand => rfl
  | join outer left right _ inductionHypothesis =>
      rw [push]
      split
      · rfl
      · rw [row, row, inductionHypothesis, first_push, List.append_assoc, List.cons_append]

/-- A pushed operand does not make a tree looser than its junction. -/
theorem lt_level_push {depth : Nat} (tight : depth < junction.level.depth)
    (within : depth < tree.level.depth) : depth < (tree.push junction last).level.depth := by
  cases tree with
  | leaf operand => exact tight
  | join outer left right =>
      rw [push]
      split
      · exact tight
      · exact within

theorem Grouped.push (grouped : tree.Grouped) : (tree.push junction last).Grouped := by
  have ties : junction.level.depth < Level.primary.depth :=
    Nat.lt_of_le_of_lt Junction.depth_level_le (by decide)
  induction tree with
  | leaf operand => exact ⟨Nat.le_of_lt ties, ties, trivial, trivial⟩
  | join outer left right _ inductionHypothesis =>
      rw [OperatorTree.push]
      split
      · rename_i loose
        exact ⟨loose, ties, grouped, trivial⟩
      · rename_i tight
        obtain ⟨loose, within, groupedLeft, groupedRight⟩ := grouped
        exact ⟨loose, lt_level_push (by omega) within, groupedLeft, inductionHypothesis groupedRight⟩

/-- Any row can be pushed to a tree. -/
theorem Groups.pushAll {start : Operand} {before : List (Junction × Operand)}
    (groups : tree.Groups start before) (joined : List (Junction × Operand)) :
    (tree.pushAll joined).Groups start (before ++ joined) := by
  induction joined generalizing tree before with
  | nil =>
      rw [List.append_nil]
      exact groups
  | cons next joined inductionHypothesis =>
      have further : (tree.push next.1 next.2).Groups start (before ++ [next]) :=
        ⟨first_push.trans groups.first_eq, by rw [row_push, groups.row_eq], groups.grouped.push⟩
      rw [List.append_cons]
      exact inductionHypothesis further

/-- Junctions that tie more closely than the outermost one stay on its right. -/
theorem pushAll_join {left right : OperatorTree} {joined : List (Junction × Operand)}
    (tight : ∀ next ∈ joined, junction.level.depth < next.1.level.depth) :
    (join junction left right).pushAll joined = join junction left (right.pushAll joined) := by
  induction joined generalizing right with
  | nil => rfl
  | cons next joined inductionHypothesis =>
      have stays : (join junction left right).push next.1 next.2 =
          join junction left (right.push next.1 next.2) :=
        if_neg (Nat.not_le_of_gt (tight next List.mem_cons_self))
      change ((join junction left right).push next.1 next.2).pushAll joined = _
      rw [stays, inductionHypothesis fun later member => tight later (List.mem_cons_of_mem _ member)]
      rfl

/-- No junction of a grouped tree ties less closely than the outermost one. -/
theorem Grouped.level_le (grouped : tree.Grouped) :
    ∀ next ∈ tree.row, tree.level.depth ≤ next.1.level.depth := by
  induction tree with
  | leaf operand => simp [row]
  | join junction left right fromLeft fromRight =>
      obtain ⟨loose, tight, groupedLeft, groupedRight⟩ := grouped
      intro next member
      change junction.level.depth ≤ _
      rw [row, List.mem_append, List.mem_cons] at member
      rcases member with inLeft | rfl | inRight
      · exact Nat.le_trans loose (fromLeft groupedLeft next inLeft)
      · exact Nat.le_refl _
      · exact Nat.le_trans (Nat.le_of_lt tight) (fromRight groupedRight next inRight)

/-- A grouped tree is what pushing its own row makes of its first operand. -/
theorem Grouped.eq_pushAll (grouped : tree.Grouped) :
    tree = (leaf tree.first).pushAll tree.row := by
  induction tree with
  | leaf operand => rfl
  | join junction left right fromLeft fromRight =>
      obtain ⟨loose, tight, groupedLeft, groupedRight⟩ := grouped
      have joined : left.push junction right.first = join junction left (leaf right.first) := by
        cases left with
        | leaf operand => rfl
        | join outer first second => exact if_pos loose
      calc
        join junction left right =
            join junction left ((leaf right.first).pushAll right.row) := by
          rw [← fromRight groupedRight]
        _ = (join junction left (leaf right.first)).pushAll right.row := by
          rw [pushAll_join fun next member =>
            Nat.lt_of_lt_of_le tight (groupedRight.level_le next member)]
        _ = (((leaf left.first).pushAll left.row).push junction right.first).pushAll right.row := by
          rw [← fromLeft groupedLeft, joined]
        _ = (leaf left.first).pushAll (left.row ++ (junction, right.first) :: right.row) := by
          rw [pushAll, pushAll, pushAll, List.foldl_append]
          rfl

/-- A row is grouped in one way only. -/
theorem Groups.unique {other : OperatorTree} {start : Operand} {joined : List (Junction × Operand)}
    (groups : tree.Groups start joined) (others : other.Groups start joined) : other = tree := by
  rw [groups.grouped.eq_pushAll, others.grouped.eq_pushAll, groups.first_eq, groups.row_eq,
    others.first_eq, others.row_eq]

end Pushing

end OperatorTree

/-- Operands with spaced operators between them are read as the one tree that groups them by precedence,
equally tight operators from left to right. -/
theorem parse_rowText (first : Operand) (row : List (Spaced × Operand)) :
    ∃ tree : OperatorTree, tree.Groups first (bare row) ∧
      (∀ other : OperatorTree, other.Groups first (bare row) → other = tree) ∧
      parse (rowText first row) = .ok tree.expression := by
  have alone : (OperatorTree.leaf first).Groups first [] := ⟨rfl, rfl, trivial⟩
  have groups := alone.pushAll (bare row)
  rw [List.nil_append] at groups
  refine ⟨_, groups, fun other others => groups.unique others, ?_⟩
  have reads := groups.grouped.reads
  rw [groups.first_eq, groups.row_eq] at reads
  exact Phrase.parse_eq ⟨_, spells_rowText first row, reads⟩

/-- A name or a star is an operand at every other place, whatever it is called. -/
example : parse "div div div - * * 'a' | mod" = .ok (.binary .subtract
    (.binary .divide (.step ⟨.child, .name "div", []⟩) (.step ⟨.child, .name "div", []⟩))
    (.binary .multiply (.step ⟨.child, .any, []⟩)
      (.union (.literal "a") (.step ⟨.child, .name "mod", []⟩)))) := by
  cbv

end ElementQuery.Path
