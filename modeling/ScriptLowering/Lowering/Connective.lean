import ScriptLowering.Grammar.Rule
import ScriptLowering.Script.Expr

/-!
# The operators that a script keeps

The rules of the grammar that hold chains of operands and operators, and for
each of them the operators that a script has too.  Every other operator of such
a rule is outside the subset.

Main definitions:

- `Connective.apply`: joins two operands.
- `Rule.connectives`: the operators that a rule keeps.
- `Rule.connective?`: the operator that a rule keeps for a spelling.
- `sign?`: the prefix operator that is kept for a spelling.
-/

namespace ScriptLowering

/-- An operator between two operands. -/
inductive Connective where
  | binary (operator : BinaryOperator)
  | logical (operator : LogicalOperator)
deriving DecidableEq, Inhabited

namespace Connective

/-- How the source language spells a connective. -/
def spelling : Connective → String
  | .binary operator => operator.symbol
  | .logical operator => operator.spelling

/-- Joins two operands; the expression covers both. -/
def apply (connective : Connective) (left right : Expr) : Expr :=
  match connective with
  | .binary operator => .ofBinary operator left right
  | .logical operator => .ofLogical operator left right

/-- Joined operands stand where both of them stand. -/
@[simp]
theorem span_apply (connective : Connective) (left right : Expr) :
    (connective.apply left right).span = left.span.merge right.span := by
  cases connective <;> rfl

end Connective

namespace Rule

/-- The operators that a rule keeps between its operands. -/
def connectives : Rule → List Connective
  | .orTest => [.logical .or]
  | .andTest => [.logical .and]
  | .comparison =>
    [ .binary .greater, .binary .less, .binary .greaterEqual, .binary .lessEqual,
      .binary .notEqual, .binary .isIn]
  | .expr => [.binary .bitOr]
  | .arithExpr => [.binary .add, .binary .subtract]
  | .term => [.binary .multiply, .binary .divide]
  | _ => []

/-- The operator that a rule keeps for a spelling. -/
def connective? (rule : Rule) (spelling : String) : Option Connective :=
  rule.connectives.find? fun connective => connective.spelling == spelling

/-- A connective that a chain keeps is one of its own, with this spelling. -/
theorem connective?_eq_some {rule : Rule} {spelling : String} {connective : Connective}
    (h : rule.connective? spelling = some connective) :
    connective ∈ rule.connectives ∧ connective.spelling = spelling := by
  refine ⟨List.mem_of_find?_eq_some h, ?_⟩
  simpa using List.find?_some h

end Rule

/-- The prefix operator of a factor that is kept for a spelling. -/
def sign? (spelling : String) : Option UnaryOperator :=
  [UnaryOperator.plus, .minus].find? fun operator => operator.spelling == spelling

/-- The operator of a sign is plus or minus, with this spelling. -/
theorem sign?_eq_some {spelling : String} {operator : UnaryOperator}
    (h : sign? spelling = some operator) :
    (operator = .plus ∨ operator = .minus) ∧ operator.spelling = spelling := by
  have hmem := List.mem_of_find?_eq_some h
  have hspelling := List.find?_some h
  exact ⟨by simpa using hmem, by simpa using hspelling⟩

end ScriptLowering
