import ScriptLowering.Proofs.Conformance

/-!
# Trees of the statement grammar

The productions of the grammar from a file down to the operands of its
expression statements.  What an operand may be is left open: the productions
take it as a parameter, so that they can be read with any condition on
expressions.

Main results:

- Definition `Tree.IsExprStmt`: operands with an annotation, with an augmented
  assignment operator, or with equals signs between them.
- Definition `Tree.IsLine`: the small statements of a line.
- Definition `Tree.IsFile`: the lines and the compound statements of a file.
- Theorem `Tree.IsFile.mono`: a file stays one under a weaker condition on
  operands.
-/

namespace ScriptLowering

/-! ## Rules of statements -/

/-- The rules inside a flow statement. -/
def Rule.flowStatements : List Rule :=
  [.breakStmt, .continueStmt, .returnStmt, .raiseStmt, .yieldStmt]

/-- The rules of the small statements other than expression and flow statements. -/
def Rule.keywordStatements : List Rule :=
  [.delStmt, .passStmt, .importStmt, .globalStmt, .nonlocalStmt, .assertStmt]

/-- The rules inside a compound statement. -/
def Rule.compoundStatements : List Rule :=
  [ .ifStmt, .whileStmt, .forStmt, .tryStmt, .withStmt, .funcdef, .classdef, .decorated,
    .asyncStmt]

namespace Tree

/-! ## Productions -/

/-- An equals sign, and a value that may stand after it. -/
structure IsAssignedValue (step : Tree × Tree) : Prop where
  isToken : step.1.isToken .operator "="
  rule?_eq : step.2.rule? = some .yieldExpr ∨ step.2.rule? = some .testlistStarExpr

section Productions

variable (Operand : Tree → Prop)

/-- An expression statement whose operands meet the given condition. -/
inductive IsExprStmt : Tree → Prop
  | annotated {target annassign : Tree} {span : Span}
      (hrule : target.rule? = some .testlistStarExpr) (htarget : Operand target)
      (hannassign : annassign.rule? = some .annassign) :
      IsExprStmt (.node .exprStmt [target, annassign] span)
  | augmented {target value : Tree} {operator : Token} {span place : Span}
      (hrule : target.rule? = some .testlistStarExpr) (htarget : Operand target)
      (hrule' : value.rule? = some .yieldExpr ∨ value.rule? = some .testlist)
      (hvalue : Operand value) :
      IsExprStmt (.node .exprStmt [target, .node .augassign [.leaf operator] place, value] span)
  | assigned {target : Tree} {values : List (Tree × Tree)} {span : Span}
      (hrule : target.rule? = some .testlistStarExpr) (htarget : Operand target)
      (hvalues : ∀ step ∈ values, IsAssignedValue step)
      (hoperands : ∀ step ∈ values, Operand step.2) :
      IsExprStmt (.node .exprStmt (target :: chainTail values) span)

/-- A small statement: an expression statement, a flow statement, or a statement
that begins with a reserved word of its own. -/
inductive IsSmallStmt : Tree → Prop
  | exprStmt {body : Tree} {span : Span} (hbody : body.IsExprStmt Operand) :
      IsSmallStmt (.node .smallStmt [body] span)
  | flowStmt {rule : Rule} {children : List Tree} {span place place' : Span}
      (hrule : rule ∈ Rule.flowStatements) :
      IsSmallStmt (.node .smallStmt [.node .flowStmt [.node rule children place'] place] span)
  | keyword {rule : Rule} {children : List Tree} {span place : Span}
      (hrule : rule ∈ Rule.keywordStatements) :
      IsSmallStmt (.node .smallStmt [.node rule children place] span)

/-- The children of a line: small statements with a semicolon between each two,
and after the last or not, and a line break. -/
inductive IsLine : List Tree → Prop
  | last {small : Tree} {newline : Token} (hsmall : small.IsSmallStmt Operand)
      (hnewline : newline.kind = .newline) : IsLine [small, .leaf newline]
  | trailing {small : Tree} {semicolon newline : Token} (hsmall : small.IsSmallStmt Operand)
      (hsemicolon : semicolon.is .operator ";") (hnewline : newline.kind = .newline) :
      IsLine [small, .leaf semicolon, .leaf newline]
  | cons {small : Tree} {semicolon : Token} {rest : List Tree}
      (hsmall : small.IsSmallStmt Operand) (hsemicolon : semicolon.is .operator ";")
      (hrest : IsLine rest) : IsLine (small :: .leaf semicolon :: rest)

/-- A statement of a file: a line or a compound statement. -/
inductive IsStmt : Tree → Prop
  | simple {children : List Tree} {span place : Span} (hline : IsLine Operand children) :
      IsStmt (.node .stmt [.node .simpleStmt children place] span)
  | compound {rule : Rule} {children : List Tree} {span place place' : Span}
      (hrule : rule ∈ Rule.compoundStatements) :
      IsStmt (.node .stmt [.node .compoundStmt [.node rule children place'] place] span)

/-- A file: line breaks and statements in any order, and the end marker. -/
inductive IsFile : Tree → Prop
  | intro {lines : List Tree} {endmarker : Token} {span : Span}
      (hlines : ∀ line ∈ lines,
        (∃ newline : Token, line = .leaf newline ∧ newline.kind = .newline) ∨
          line.IsStmt Operand)
      (hend : endmarker.kind = .endmarker) :
      IsFile (.node .fileInput (lines ++ [.leaf endmarker]) span)

end Productions

/-! ## Weaker conditions on operands -/

section Mono

variable {P Q : Tree → Prop} (hPQ : ∀ tree, P tree → Q tree)

include hPQ

/-- An expression statement stays one under a weaker condition on its operands. -/
theorem IsExprStmt.mono {stmt : Tree} (h : stmt.IsExprStmt P) : stmt.IsExprStmt Q := by
  cases h with
  | annotated hrule htarget hannassign => exact .annotated hrule (hPQ _ htarget) hannassign
  | augmented hrule htarget hrule' hvalue =>
      exact .augmented hrule (hPQ _ htarget) hrule' (hPQ _ hvalue)
  | assigned hrule htarget hvalues hoperands =>
      exact .assigned hrule (hPQ _ htarget) hvalues
        fun step hstep => hPQ _ (hoperands step hstep)

theorem IsSmallStmt.mono {small : Tree} (h : small.IsSmallStmt P) : small.IsSmallStmt Q := by
  cases h with
  | exprStmt hbody => exact .exprStmt (hbody.mono hPQ)
  | flowStmt hrule => exact .flowStmt hrule
  | keyword hrule => exact .keyword hrule

theorem IsLine.mono {children : List Tree} (h : IsLine P children) : IsLine Q children := by
  induction h with
  | last hsmall hnewline => exact .last (hsmall.mono hPQ) hnewline
  | trailing hsmall hsemicolon hnewline => exact .trailing (hsmall.mono hPQ) hsemicolon hnewline
  | cons hsmall hsemicolon _ ih => exact .cons (hsmall.mono hPQ) hsemicolon ih

theorem IsStmt.mono {stmt : Tree} (h : stmt.IsStmt P) : stmt.IsStmt Q := by
  cases h with
  | simple hline => exact .simple (hline.mono hPQ)
  | compound hrule => exact .compound hrule

/-- A file stays one when its operands meet a weaker condition. -/
theorem IsFile.mono {root : Tree} (h : root.IsFile P) : root.IsFile Q := by
  cases h with
  | intro hlines hend =>
      refine .intro ?_ hend
      intro line hline
      exact (hlines line hline).imp_right fun hstmt => hstmt.mono hPQ

end Mono

end Tree

end ScriptLowering
