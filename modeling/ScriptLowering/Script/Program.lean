import ScriptLowering.Script.Expr

/-!
# Statements and programs of a script

A statement evaluates an expression or assigns one to a target.  A program is a
list of statements.

Main definitions:

- `Statement.display`, `Program.display`: the text of a statement, and of a
  program with one statement on each line.
-/

namespace ScriptLowering

/-- A statement of a script. -/
inductive Statement where
  | expression (value : Expr) (span : Span)
  | assignment (operator : AssignmentOperator) (target value : Expr) (span : Span)
deriving DecidableEq, Inhabited

namespace Statement

/-- The stretch of source that a statement stands for. -/
def span : Statement → Span
  | .expression _ span => span
  | .assignment _ _ _ span => span

/-- The text of a statement. -/
def display : Statement → String
  | .expression value _ => value.display
  | .assignment operator target value _ =>
    target.display ++ " " ++ operator.symbol ++ " " ++ value.display

end Statement

/-- A script: its statements in order. -/
structure Program where
  body : List Statement
deriving DecidableEq, Inhabited

namespace Program

/-- The script without statements. -/
def empty : Program := ⟨[]⟩

/-- The number of statements. -/
def size (program : Program) : Nat :=
  program.body.length

def isEmpty (program : Program) : Bool :=
  program.body.isEmpty

/-- The text of a program, one statement on each line. -/
def display (program : Program) : String :=
  "\n".intercalate (program.body.map Statement.display)

end Program

end ScriptLowering
