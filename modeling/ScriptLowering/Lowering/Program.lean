import ScriptLowering.Lowering.Statement

/-!
# Lowering the entry points

The three rules that a whole input can be: a file, one interactive input, and
an expression on its own.  A file gives one statement for each of its lines; an
interactive input gives at most one.

Main definitions:

- `lowerFileInput`, `lowerSingleInput`: lower an input to a program.
- `lowerEvalInput`: lowers an input to an expression.
-/

namespace ScriptLowering

/-! ## Compound statements -/

/-- Stops at a compound statement, which is named by its own rule. -/
def refuseCompoundRule {α : Type} (compound : Tree) : Lowered α :=
  match compound.rule?.bind Construct.ofCompoundRule? with
  | some construct => refuse construct compound.span
  | none => mismatch compound "a compound statement rule"

/-- Stops at the compound statement inside the node that stands for any of them. -/
def refuseCompound {α : Type} (stmt : Tree) : Lowered α :=
  match stmt.childNodes with
  | compound :: _ => refuseCompoundRule compound
  | [] => mismatch stmt "a compound statement rule"

/-! ## Files -/

/-- Lowers a statement of a file. -/
def lowerStmt (stmt : Tree) : Lowered Statement :=
  if stmt.isNode .stmt then
    match stmt.children with
    | [.node rule children span] =>
      let inner : Tree := .node rule children span
      match rule with
      | .simpleStmt => lowerSimpleStmt inner
      | .compoundStmt => refuseCompound inner
      | _ =>
        if (Construct.ofCompoundRule? rule).isSome then refuseCompoundRule inner
        else mismatch inner "`simple_stmt` or `compound_stmt`"
    | _ => mismatch stmt "a simple or compound statement"
  else mismatch stmt "`stmt`"

/-- Stops at a token that does not belong where it stands. -/
def refuseStray {α : Type} (token : Token) (place : StrayPlace) : Lowered α :=
  .error (.parse ⟨token.span, .strayToken token.text place⟩)

/-- Lowers the children of a file in order; structural tokens contribute nothing. -/
def lowerLines : List Tree → Lowered (List Statement)
  | [] => .ok []
  | .leaf token :: rest =>
    if token.isStructural then lowerLines rest else refuseStray token .topLevel
  | .node rule children span :: rest => do
    let statement ← lowerStmt (.node rule children span)
    let statements ← lowerLines rest
    return statement :: statements

/-- Lowers a file to a program. -/
def lowerFileInput (root : Tree) : Lowered Program :=
  if root.isNode .fileInput then do
    let statements ← lowerLines root.children
    return ⟨statements⟩
  else mismatch root "`file_input`"

/-! ## Interactive inputs -/

/-- Lowers one interactive input to a program. -/
def lowerSingleInput (root : Tree) : Lowered Program :=
  if root.isNode .singleInput then
    match root.children with
    | [.leaf token] =>
      if token.kind == .newline then .ok .empty
      else mismatch root "a newline, `simple_stmt` or `compound_stmt`"
    | [.node rule children span] =>
      if rule == .simpleStmt then do
        let statement ← lowerSimpleStmt (.node rule children span)
        return ⟨[statement]⟩
      else mismatch root "a newline, `simple_stmt` or `compound_stmt`"
    | [stmt, .leaf token] =>
      if stmt.isNode .compoundStmt && token.kind == .newline then refuseCompound stmt
      else mismatch root "a newline, `simple_stmt` or `compound_stmt`"
    | _ => mismatch root "a newline, `simple_stmt` or `compound_stmt`"
  else mismatch root "`single_input`"

/-! ## Expressions on their own -/

/-- Checks that nothing but structural tokens follows an expression. -/
def checkEnd : List Tree → Lowered Unit
  | [] => .ok ()
  | .leaf token :: rest =>
    if token.isStructural then checkEnd rest else refuseStray token .afterExpression
  | .node rule children span :: _ => mismatch (.node rule children span) "end of input"

/-- Lowers an expression on its own. -/
def lowerEvalInput (root : Tree) : Lowered Expr :=
  match root.children with
  | .node rule children span :: rest =>
    if root.isNode .evalInput && rule == .testlist then do
      checkEnd rest
      lowerTestlist (.node rule children span)
    else mismatch root "`eval_input` starting with a `testlist`"
  | _ => mismatch root "`testlist`"

end ScriptLowering
