import ScriptLowering.Script.Program

/-!
# How the source spells a script

The spelling of a script is the list of tokens that it stands for, in the order
of the source: the raw text of every literal, and every operator in the words
of the source language.  Grouping leaves no trace in it.
-/

namespace ScriptLowering

/-- The tokens that an expression stands for. -/
def Expr.spelling : Expr → List String
  | .literal _ raw _ => [raw]
  | .unary operator argument _ => operator.spelling :: argument.spelling
  | .binary operator left right _ => left.spelling ++ operator.symbol :: right.spelling
  | .logical operator left right _ => left.spelling ++ operator.spelling :: right.spelling

/-- The tokens that a statement stands for. -/
def Statement.spelling : Statement → List String
  | .expression value _ => value.spelling
  | .assignment operator target value _ => target.spelling ++ operator.symbol :: value.spelling

/-- The tokens that a program stands for, without what separates its statements. -/
def Program.spelling (program : Program) : List String :=
  program.body.flatMap Statement.spelling

@[simp]
theorem Expr.spelling_ofBinary (operator : BinaryOperator) (left right : Expr) :
    (ofBinary operator left right).spelling =
      left.spelling ++ operator.symbol :: right.spelling :=
  rfl

@[simp]
theorem Expr.spelling_ofLogical (operator : LogicalOperator) (left right : Expr) :
    (ofLogical operator left right).spelling =
      left.spelling ++ operator.spelling :: right.spelling :=
  rfl

end ScriptLowering
