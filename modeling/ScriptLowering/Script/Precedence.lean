import ScriptLowering.Script.Expr

/-!
# Precedence of a script's operators

Every expression has a binding level: zero for a literal, and a higher number
the looser its outermost operator binds.  An expression is in normal form when
it needs no parentheses: the operands of every operator bind tightly enough,
and a left operand may have the level of its operator because operators group
to the left.  Comparisons do not group at all.

Main definitions:

- `Expr.level`: the binding level of an expression.
- `Expr.IsNormal`: an expression that needs no parentheses.
-/

namespace ScriptLowering

/-- The binding level of a prefix operator. -/
def UnaryOperator.level : UnaryOperator → Nat
  | .plus | .minus => 1
  | .not => 6

/-- The binding level of a binary operator. -/
def BinaryOperator.level : BinaryOperator → Nat
  | .multiply | .divide => 2
  | .add | .subtract => 3
  | .bitOr => 4
  | .greater | .less | .greaterEqual | .lessEqual | .notEqual | .isIn => 5

/-- The highest level of a left operand: that of the operator, except that comparisons do not
group. -/
def BinaryOperator.leftLevel (operator : BinaryOperator) : Nat :=
  if operator.isComparison then operator.level - 1 else operator.level

/-- The binding level of a logical operator. -/
def LogicalOperator.level : LogicalOperator → Nat
  | .and => 7
  | .or => 8

namespace Expr

/-- The binding level of an expression. -/
def level : Expr → Nat
  | .literal _ _ _ => 0
  | .unary operator _ _ => operator.level
  | .binary operator _ _ _ => operator.level
  | .logical operator _ _ _ => operator.level

/-- An expression that needs no parentheses. -/
def IsNormal : Expr → Prop
  | .literal _ _ _ => True
  | .unary operator argument _ => argument.level ≤ operator.level ∧ argument.IsNormal
  | .binary operator left right _ =>
    left.level ≤ operator.leftLevel ∧ right.level < operator.level ∧
      left.IsNormal ∧ right.IsNormal
  | .logical operator left right _ =>
    left.level ≤ operator.level ∧ right.level < operator.level ∧
      left.IsNormal ∧ right.IsNormal

end Expr

end ScriptLowering
