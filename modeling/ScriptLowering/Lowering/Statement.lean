import ScriptLowering.Lowering.Expression
import ScriptLowering.Script.Program

/-!
# Lowering statements

A line holds one small statement, with or without a semicolon after it.  The
only small statement that a script keeps is the expression statement, in three
shapes: a value, a target and a value with an equals sign between them, and a
target and a value with one of four augmented assignment operators.

Main definitions:

- `lowerSimpleStmt`: lowers a line to a statement.
- `lowerExprStmt`: lowers an expression statement.
-/

namespace ScriptLowering

/-! ## Operands -/

/-- Lowers an assignment target: a single operand that is not starred. -/
def lowerTarget (target : Tree) : Lowered Expr :=
  if target.isNode .testlistStarExpr || target.isNode .testlist then
    match target.children with
    | [] => mismatch target "an assignment target"
    | [item] =>
      if item.isNode .starExpr then refuse .starredAssignmentTargets item.span
      else lowerExpression target
    | _ :: _ :: _ => refuse .multipleAssignmentTargets target.span
  else lowerExpression target

/-- Lowers a value: what an assignment assigns, or an expression statement evaluates. -/
def lowerValue (value : Tree) : Lowered Expr :=
  match value.rule? with
  | some .yieldExpr => refuse .yieldExpressions value.span
  | some .testlistStarExpr | some .testlist => lowerTestlist value
  | _ => mismatch value "`testlist_star_expr`, `testlist` or `yield_expr`"

/-- The augmented assignments that a script keeps. -/
def augmentedOperators : List AssignmentOperator :=
  [.addAssign, .subtractAssign, .multiplyAssign, .divideAssign]

/-- The operator of an augmented assignment, which is the first token of its node. -/
def lowerAugmented (augmented : Tree) : Lowered AssignmentOperator :=
  match augmented.childTokens with
  | [] => mismatch augmented "an augmented assignment operator"
  | token :: _ =>
    match augmentedOperators.find? fun operator => operator.symbol == token.text with
    | some operator => .ok operator
    | none => refuse (.operator token.text) token.span

/-! ## Expression statements -/

/-- A child of an expression statement. -/
inductive Part where
  | operand (tree : Tree)
  | equals
  | augmented (tree : Tree)
deriving DecidableEq, Inhabited

/-- What a child of an expression statement is; an annotation is outside the subset. -/
def readPart (stmt child : Tree) : Lowered Part :=
  match child.rule? with
  | some .testlistStarExpr | some .testlist | some .yieldExpr => .ok (.operand child)
  | some .augassign => .ok (.augmented child)
  | some .annassign => refuse .annotatedAssignments stmt.span
  | some _ => mismatch stmt "operands separated by an assignment operator"
  | none =>
    if child.isToken .operator "=" then .ok .equals
    else mismatch stmt "operands separated by an assignment operator"

/-- What the children of an expression statement are, up to the first that does not belong. -/
def readParts (stmt : Tree) : List Tree → Lowered (List Part)
  | [] => .ok []
  | child :: children => do
    let part ← readPart stmt child
    let parts ← readParts stmt children
    return part :: parts

/-- Lowers an expression statement. -/
def lowerExprStmt (stmt : Tree) : Lowered Statement := do
  match ← readParts stmt stmt.children with
  | [.operand value] =>
    let value ← lowerValue value
    return .expression value stmt.span
  | [.operand target, .equals, .operand value] =>
    let target ← lowerTarget target
    let value ← lowerValue value
    return .assignment .assign target value stmt.span
  | [.operand target, .augmented operator, .operand value] =>
    let target ← lowerTarget target
    let operator ← lowerAugmented operator
    if value.isNode .yieldExpr then refuse .augmentedYieldAssignment value.span
    else
      let value ← lowerValue value
      return .assignment operator target value stmt.span
  | .operand _ :: .equals :: .operand _ :: .equals :: _ =>
    refuse .chainedAssignments stmt.span
  | _ => mismatch stmt "operands separated by an assignment operator"

/-! ## Lines -/

/-- Lowers the body of a small statement. -/
def lowerSmallStmt (small : Tree) : Lowered Statement :=
  match small.children with
  | [.node rule children span] =>
    let body : Tree := .node rule children span
    match rule with
    | .exprStmt => lowerExprStmt body
    | .flowStmt =>
      match (body.childNodes.head?.bind Tree.rule?).bind Construct.ofSmallRule? with
      | some construct => refuse construct span
      | none => mismatch body "a flow statement"
    | _ =>
      match Construct.ofSmallRule? rule with
      | some construct => refuse construct span
      | none => mismatch body "a small statement"
  | _ => mismatch small "a single statement body"

/-- A token that may stand between small statements: a semicolon, or the line break. -/
def isSeparator (tree : Tree) : Bool :=
  match tree with
  | .leaf token => token.is .operator ";" || token.kind == .newline
  | .node _ _ _ => false

/-- The only small statement among the children of a line, `found` being the one already seen. -/
def soleSmallStmt (line : Tree) (found : Option Tree) : List Tree → Lowered (Option Tree)
  | [] => .ok found
  | child :: children =>
    if child.isNode .smallStmt then
      if found.isSome then refuse .multipleStatementsPerLine child.span
      else soleSmallStmt line (some child) children
    else if isSeparator child then soleSmallStmt line found children
    else mismatch line "`small_stmt` separated by `;`"

/-- Lowers a line to a statement. -/
def lowerSimpleStmt (line : Tree) : Lowered Statement :=
  if line.isNode .simpleStmt then do
    match ← soleSmallStmt line none line.children with
    | some small => lowerSmallStmt small
    | none => mismatch line "a `small_stmt`"
  else mismatch line "`simple_stmt`"

end ScriptLowering
