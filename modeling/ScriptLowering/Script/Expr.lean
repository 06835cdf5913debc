import ScriptLowering.Span
import ScriptLowering.Script.Operator

/-!
# Expressions of a script

An expression is a literal, or an operator applied to one or two expressions.
Every expression carries the span of the source that it stands for.

Main definitions:

- `Expr.ofBinary`, `Expr.ofLogical`: an operator whose span covers both operands.
- `Expr.display`: the fully parenthesized text of an expression.
-/

namespace ScriptLowering

/-- What a literal stands for.  A name is a literal too: its value is looked up when the script
runs.  A string keeps its quotes and the letters in front of them. -/
inductive LiteralValue where
  | integer (value : Int64)
  | boolean (value : Bool)
  | name (text : String)
  | string (text : String)
deriving DecidableEq, Inhabited

/-- An expression of a script. -/
inductive Expr where
  | literal (value : LiteralValue) (raw : String) (span : Span)
  | unary (operator : UnaryOperator) (argument : Expr) (span : Span)
  | binary (operator : BinaryOperator) (left right : Expr) (span : Span)
  | logical (operator : LogicalOperator) (left right : Expr) (span : Span)
deriving DecidableEq, Inhabited

namespace Expr

/-- The stretch of source that an expression stands for. -/
def span : Expr → Span
  | .literal _ _ span => span
  | .unary _ _ span => span
  | .binary _ _ _ span => span
  | .logical _ _ _ span => span

/-- A binary operator applied to two operands; it covers both. -/
def ofBinary (operator : BinaryOperator) (left right : Expr) : Expr :=
  .binary operator left right (left.span.merge right.span)

/-- A logical operator applied to two operands; it covers both. -/
def ofLogical (operator : LogicalOperator) (left right : Expr) : Expr :=
  .logical operator left right (left.span.merge right.span)

/-- The value of a literal; an operator has none. -/
def literalValue? : Expr → Option LiteralValue
  | .literal value _ _ => some value
  | .unary _ _ _ => none
  | .binary _ _ _ _ => none
  | .logical _ _ _ _ => none

@[simp]
theorem span_ofBinary (operator : BinaryOperator) (left right : Expr) :
    (ofBinary operator left right).span = left.span.merge right.span :=
  rfl

@[simp]
theorem span_ofLogical (operator : LogicalOperator) (left right : Expr) :
    (ofLogical operator left right).span = left.span.merge right.span :=
  rfl

/-- The text of an expression, with parentheses around every operator and its operands. -/
def display : Expr → String
  | .literal _ raw _ => raw
  | .unary operator argument _ => "(" ++ operator.symbol ++ argument.display ++ ")"
  | .binary operator left right _ =>
    "(" ++ left.display ++ " " ++ operator.symbol ++ " " ++ right.display ++ ")"
  | .logical operator left right _ =>
    "(" ++ left.display ++ " " ++ operator.symbol ++ " " ++ right.display ++ ")"

end Expr

end ScriptLowering
