import ScriptLowering.Grammar.Rule

/-!
# Constructs outside the subset

The catalogue of what the source grammar allows and a script cannot express.
Every construct has a category, which is how a message names it, and a message
about it uses "is" or "are" as the category requires.

Main definitions:

- `Construct.category`, `Construct.isSingular`: how a message names a construct.
- `Construct.ofCompoundRule?`, `Construct.ofSmallRule?`: the construct that a
  statement rule stands for.
-/

namespace ScriptLowering

/-- A construct that a script cannot express. -/
inductive Construct where
  -- Expressions.
  | lambdaExpressions | conditionalExpressions | starredExpressions | yieldExpressions
  | tupleExpressions | chainedComparisons
  /-- An operator that its place in the grammar allows and a script does not have. -/
  | operator (symbol : String)
  -- Atoms and what follows them.
  | awaitExpressions | functionCalls | subscripts | attributeAccess | noneLiteral | ellipsis
  | parenthesizedExpressions | listDisplays | dictOrSetDisplays | implicitStringConcatenation
  | nonIntegerLiterals | integerOverflow
  -- Assignments.
  | starredAssignmentTargets | multipleAssignmentTargets | chainedAssignments
  | annotatedAssignments | augmentedYieldAssignment
  -- Simple statements.
  | multipleStatementsPerLine | delStatements | passStatements | breakStatements
  | continueStatements | returnStatements | raiseStatements | yieldStatements
  | importStatements | globalStatements | nonlocalStatements | assertStatements
  -- Compound statements.
  | ifStatements | whileLoops | forLoops | tryStatements | withStatements | functionDefinitions
  | classDefinitions | decoratedDefinitions | asyncStatements
deriving DecidableEq, Inhabited

namespace Construct

/-- The name of a construct as it reads in a sentence. -/
def category : Construct → String
  | .lambdaExpressions => "lambda expressions"
  | .conditionalExpressions => "conditional expressions"
  | .starredExpressions => "starred expressions"
  | .yieldExpressions => "yield expressions"
  | .tupleExpressions => "tuple expressions"
  | .chainedComparisons => "chained comparisons"
  | .operator symbol => "the `" ++ symbol ++ "` operator"
  | .awaitExpressions => "await expressions"
  | .functionCalls => "function calls"
  | .subscripts => "subscripts"
  | .attributeAccess => "attribute access"
  | .noneLiteral => "`None`"
  | .ellipsis => "the ellipsis literal"
  | .parenthesizedExpressions => "parenthesized expressions"
  | .listDisplays => "list displays"
  | .dictOrSetDisplays => "dict and set displays"
  | .implicitStringConcatenation => "implicit string concatenation"
  | .nonIntegerLiterals => "non-integer numeric literals"
  | .integerOverflow => "integer literals outside the 64-bit range"
  | .starredAssignmentTargets => "starred assignment targets"
  | .multipleAssignmentTargets => "multiple assignment targets"
  | .chainedAssignments => "chained assignments"
  | .annotatedAssignments => "annotated assignments"
  | .augmentedYieldAssignment => "augmented assignment of yield expressions"
  | .multipleStatementsPerLine => "multiple statements on one line"
  | .delStatements => "del statements"
  | .passStatements => "pass statements"
  | .breakStatements => "break statements"
  | .continueStatements => "continue statements"
  | .returnStatements => "return statements"
  | .raiseStatements => "raise statements"
  | .yieldStatements => "yield statements"
  | .importStatements => "import statements"
  | .globalStatements => "global statements"
  | .nonlocalStatements => "nonlocal statements"
  | .assertStatements => "assert statements"
  | .ifStatements => "if statements"
  | .whileLoops => "while loops"
  | .forLoops => "for loops"
  | .tryStatements => "try statements"
  | .withStatements => "with statements"
  | .functionDefinitions => "function definitions"
  | .classDefinitions => "class definitions"
  | .decoratedDefinitions => "decorated definitions"
  | .asyncStatements => "async statements"

/-- A category that names a single thing. -/
def isSingular : Construct → Bool
  | .operator _ | .noneLiteral | .ellipsis | .attributeAccess | .implicitStringConcatenation => true
  | _ => false

/-- A compound statement. -/
def isCompoundStatement : Construct → Bool
  | .ifStatements | .whileLoops | .forLoops | .tryStatements | .withStatements
  | .functionDefinitions | .classDefinitions | .decoratedDefinitions | .asyncStatements => true
  | _ => false

/-- The construct that the rule of a compound statement stands for. -/
def ofCompoundRule? : Rule → Option Construct
  | .ifStmt => some .ifStatements
  | .whileStmt => some .whileLoops
  | .forStmt => some .forLoops
  | .tryStmt => some .tryStatements
  | .withStmt => some .withStatements
  | .funcdef => some .functionDefinitions
  | .classdef => some .classDefinitions
  | .decorated => some .decoratedDefinitions
  | .asyncStmt => some .asyncStatements
  | _ => none

/-- The construct that the rule of a small statement stands for.  A flow statement stands for what
the rule inside it stands for, and an expression statement for nothing outside the subset. -/
def ofSmallRule? : Rule → Option Construct
  | .delStmt => some .delStatements
  | .passStmt => some .passStatements
  | .breakStmt => some .breakStatements
  | .continueStmt => some .continueStatements
  | .returnStmt => some .returnStatements
  | .raiseStmt => some .raiseStatements
  | .yieldStmt => some .yieldStatements
  | .importStmt => some .importStatements
  | .globalStmt => some .globalStatements
  | .nonlocalStmt => some .nonlocalStatements
  | .assertStmt => some .assertStatements
  | _ => none

/-- A rule of a compound statement stands for a compound statement. -/
theorem isCompoundStatement_of_ofCompoundRule? {rule : Rule} {construct : Construct}
    (h : ofCompoundRule? rule = some construct) : construct.isCompoundStatement = true := by
  cases rule <;> cases h <;> rfl

end Construct

end ScriptLowering
