import ScriptLowering.Lowering.Connective
import ScriptLowering.Script.Precedence
import ScriptLowering.Script.Spans

/-!
# Expressions by their connectives

Binary and logical operators differ in what a script does with them, and not in
how they join two operands.  An expression is therefore a literal, a prefix
operator with its argument, or a connective between two operands, and what is
said of connectives is said of both kinds of operators at once.

Main definitions:

- `Connective.node`: a connective between two operands, at any place.
- `Connective.level`, `Connective.leftLevel`: how tightly a connective binds, and
  how loosely its left operand may.
- `Expr.joined`: an expression joined with further operands, from left to right.

Main result:

- Theorem `Expr.inductionOnConnectives`: induction with one case for all
  connectives.
-/

namespace ScriptLowering

/-! ## Connectives between operands -/

/-- A connective between two operands, at any place. -/
def Connective.node (connective : Connective) (left right : Expr) (span : Span) : Expr :=
  match connective with
  | .binary operator => .binary operator left right span
  | .logical operator => .logical operator left right span

/-- A connective that joins two operands stands where they stand. -/
theorem Connective.apply_eq_node (connective : Connective) (left right : Expr) :
    connective.apply left right = connective.node left right (left.span.merge right.span) := by
  cases connective <;> rfl

/-- What holds of literals, and passes to prefix operators and connectives from
their operands, holds of every expression. -/
@[elab_as_elim]
theorem Expr.inductionOnConnectives {motive : Expr → Prop}
    (literal : ∀ value raw span, motive (.literal value raw span))
    (unary : ∀ operator argument span, motive argument → motive (.unary operator argument span))
    (node : ∀ (connective : Connective) left right span, motive left → motive right →
      motive (connective.node left right span))
    (e : Expr) : motive e := by
  induction e with
  | literal value raw span => exact literal value raw span
  | unary operator argument span ih => exact unary operator argument span ih
  | binary operator left right span ihleft ihright =>
      exact node (.binary operator) left right span ihleft ihright
  | logical operator left right span ihleft ihright =>
      exact node (.logical operator) left right span ihleft ihright

/-! ## Levels -/

namespace Connective

/-- The binding level of a connective. -/
def level : Connective → Nat
  | .binary operator => operator.level
  | .logical operator => operator.level

/-- The highest level of a left operand of a connective. -/
def leftLevel : Connective → Nat
  | .binary operator => operator.leftLevel
  | .logical operator => operator.level

/-- No left operand binds looser than its connective. -/
theorem leftLevel_le_level (connective : Connective) :
    connective.leftLevel ≤ connective.level := by
  cases connective with
  | binary operator => cases operator <;> decide
  | logical operator => exact Nat.le_refl _

/-- No connective binds as tight as a literal. -/
theorem level_pos (connective : Connective) : 0 < connective.level := by
  cases connective with
  | binary operator => cases operator <;> decide
  | logical operator => cases operator <;> decide

end Connective

namespace Expr

@[simp]
theorem level_node (connective : Connective) (left right : Expr) (span : Span) :
    (connective.node left right span).level = connective.level := by
  cases connective <;> rfl

@[simp]
theorem level_apply (connective : Connective) (left right : Expr) :
    (connective.apply left right).level = connective.level := by
  rw [connective.apply_eq_node, level_node]

/-- A connective needs no parentheses around operands that bind tightly enough. -/
theorem isNormal_node {connective : Connective} {left right : Expr} {span : Span} :
    (connective.node left right span).IsNormal ↔
      left.level ≤ connective.leftLevel ∧ right.level < connective.level ∧
        left.IsNormal ∧ right.IsNormal := by
  cases connective <;> exact Iff.rfl

/-! ## Expressions without positions -/

@[simp]
theorem eraseSpans_literal (value : LiteralValue) (raw : String) (span : Span) :
    (Expr.literal value raw span).eraseSpans = .literal value raw .unplaced :=
  rfl

@[simp]
theorem eraseSpans_unary (operator : UnaryOperator) (argument : Expr) (span : Span) :
    (Expr.unary operator argument span).eraseSpans =
      .unary operator argument.eraseSpans .unplaced :=
  rfl

@[simp]
theorem eraseSpans_node (connective : Connective) (left right : Expr) (span : Span) :
    (connective.node left right span).eraseSpans =
      connective.node left.eraseSpans right.eraseSpans .unplaced := by
  cases connective <;> rfl

@[simp]
theorem eraseSpans_apply (connective : Connective) (left right : Expr) :
    (connective.apply left right).eraseSpans =
      connective.node left.eraseSpans right.eraseSpans .unplaced := by
  rw [connective.apply_eq_node, eraseSpans_node]

/-! ## Joining operands from left to right -/

/-- An expression joined with further operands, from left to right. -/
def joined (left : Expr) (steps : List (Connective × Expr)) : Expr :=
  steps.foldl (fun left step => step.1.apply left step.2) left

@[simp]
theorem joined_nil (left : Expr) : left.joined [] = left :=
  rfl

@[simp]
theorem joined_cons (left : Expr) (step : Connective × Expr) (steps : List (Connective × Expr)) :
    left.joined (step :: steps) = (step.1.apply left step.2).joined steps :=
  rfl

@[simp]
theorem joined_append (left : Expr) (steps steps' : List (Connective × Expr)) :
    left.joined (steps ++ steps') = (left.joined steps).joined steps' :=
  List.foldl_append

end Expr

end ScriptLowering
