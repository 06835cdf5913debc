import ScriptLowering.Grammar.ExpressionForms

/-!
# Trees of statements and entry points

Builders for the statement forms of the grammar and for its three entry points.

Main definitions:

- `Tree.statement`: one line from the body of a statement or from an expression.
- `Tree.file`, `Tree.singleInput`, `Tree.evalInput`: the entry points.
-/

namespace ScriptLowering
namespace Tree

/-! ## Expression statements and assignments -/

/-- An operand of an expression statement: a list or a yield stays as it is, a starred expression
becomes a list of one item, and anything else is lifted. -/
def statementOperand (operand : Tree) : Tree :=
  match operand.rule? with
  | some .testlist | some .yieldExpr => operand
  | some .starExpr => ofChildren .testlistStarExpr [operand]
  | _ => operand.lift .testlistStarExpr

/-- An expression as a statement. -/
def exprStmt (expression : Tree) : Tree :=
  ofChildren .exprStmt [statementOperand expression]

/-- Operands with an equals sign between each two. -/
def assignmentChain (operands : List Tree) : Tree :=
  ofChildren .exprStmt ((operands.map statementOperand).intersperse (.leaf (.operator "=")))

/-- A target and the value assigned to it. -/
def assignment (target value : Tree) : Tree :=
  assignmentChain [target, value]

/-- A target, an augmented assignment operator and a value; a value that is neither a list nor a
yield becomes a list of one item. -/
def augmentedAssignment (target : Tree) (operator : String) (value : Tree) : Tree :=
  let value := match value.rule? with
    | some .testlist | some .yieldExpr => value
    | _ => testlist [value] false
  ofChildren .exprStmt
    [statementOperand target, ofChildren .augassign [.leaf (.operator operator)], value]

/-- A target with an annotation, and with a value or without one. -/
def annotatedAssignment (target annotation : Tree) (value : Option Tree) : Tree :=
  let assigned := match value with
    | some value => [.leaf (.operator "="), value.lift .test]
    | none => []
  ofChildren .exprStmt
    [ statementOperand target,
      ofChildren .annassign ([.leaf (.operator ":"), annotation.lift .test] ++ assigned)]

/-! ## Other small statements -/

/-- The statement that does nothing. -/
def passStmt : Tree :=
  ofChildren .passStmt [.leaf (.keyword "pass")]

/-- The statement that deletes a target. -/
def delStmt (target : Tree) : Tree :=
  ofChildren .delStmt [.leaf (.keyword "del"), target.lift .expr]

/-- A flow statement that is one reserved word. -/
def flowStmt (rule : Rule) (word : String) : Tree :=
  ofChildren .flowStmt [ofChildren rule [.leaf (.keyword word)]]

/-- A statement that is a reserved word and a name. -/
def keywordStmt (rule : Rule) (word operand : String) : Tree :=
  ofChildren rule [.leaf (.keyword word), .leaf (.name operand)]

/-! ## Lines -/

/-- The body of a statement as a small statement, unless it is one already. -/
def smallStmt (body : Tree) : Tree :=
  if body.isNode .smallStmt then body else ofChildren .smallStmt [body]

/-- A line of small statements separated by semicolons, with or without one after the last. -/
def simpleStmt (bodies : List Tree) (trailingSemicolon : Bool) : Tree :=
  ofChildren .simpleStmt
    ((bodies.map smallStmt).intersperse (.leaf (.operator ";"))
      ++ (if trailingSemicolon then [.leaf (.operator ";")] else [])
      ++ [.leaf .newline])

/-- The rules whose trees are bodies of small statements. -/
def isStatementBody (tree : Tree) : Bool :=
  match tree.rule? with
  | some .smallStmt | some .exprStmt | some .delStmt | some .passStmt | some .flowStmt
  | some .importStmt | some .globalStmt | some .nonlocalStmt | some .assertStmt => true
  | _ => false

/-- One full line from the body of a small statement, or from an expression. -/
def statement (body : Tree) : Tree :=
  let body := if body.isStatementBody then body else exprStmt body
  ofChildren .stmt [simpleStmt [body] false]

/-- A compound statement with nothing but a head: a reserved word, a name and a colon. -/
def compound (rule : Rule) (word : String) : Tree :=
  let head := ofChildren rule
    [ .leaf (.keyword word), (identifier "x").lift .test, .leaf (.operator ":"), .leaf .newline]
  ofChildren .stmt [ofChildren .compoundStmt [head]]

/-! ## Entry points -/

/-- A file from its statements and line breaks. -/
def file (children : List Tree) : Tree :=
  ofChildren .fileInput (children ++ [.leaf .endmarker])

/-- One interactive input: a line break, a simple statement, or a compound statement and the line
break after it. -/
def singleInput (body : Option Tree) : Tree :=
  match body with
  | none => ofChildren .singleInput [.leaf .newline]
  | some body =>
    if body.isNode .compoundStmt then ofChildren .singleInput [body, .leaf .newline]
    else ofChildren .singleInput [body]

/-- An expression on its own; one that is not a list becomes a list of one item. -/
def evalInput (expression : Tree) : Tree :=
  let list := if expression.isNode .testlist then expression else testlist [expression] false
  ofChildren .evalInput [list, .leaf .newline, .leaf .endmarker]

end Tree
end ScriptLowering
