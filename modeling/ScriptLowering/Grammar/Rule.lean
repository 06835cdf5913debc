/-!
# Grammar rules

The closed set of rules of the source grammar.  Every interior node of a
concrete tree is the application of one of them, and the name of a rule is the
one that the grammar gives it.

Main result:

- `Rule.ofName?_name`: the name of a rule determines the rule.
-/

namespace ScriptLowering

/-- A rule of the source grammar. -/
inductive Rule where
  -- Entry points.
  | fileInput | singleInput | evalInput
  -- Simple statements.
  | stmt | simpleStmt | smallStmt | exprStmt | annassign | augassign | delStmt | passStmt
  | flowStmt | breakStmt | continueStmt | returnStmt | raiseStmt | yieldStmt | importStmt
  | globalStmt | nonlocalStmt | assertStmt
  -- Compound statements.
  | compoundStmt | ifStmt | whileStmt | forStmt | tryStmt | withStmt | funcdef | classdef
  | decorated | asyncStmt
  -- Expressions, the loosest binding first.
  | testlistStarExpr | testlist | test | testNocond | lambdef | lambdefNocond | orTest
  | andTest | notTest | comparison | compOp | starExpr | expr | xorExpr | andExpr | shiftExpr
  | arithExpr | term | factor | power | atomExpr | atom | trailer | testlistComp | yieldExpr
  | yieldArg
deriving DecidableEq, Inhabited

namespace Rule

/-- All rules, in the order of the grammar. -/
def all : List Rule :=
  [ .fileInput, .singleInput, .evalInput,
    .stmt, .simpleStmt, .smallStmt, .exprStmt, .annassign, .augassign, .delStmt, .passStmt,
    .flowStmt, .breakStmt, .continueStmt, .returnStmt, .raiseStmt, .yieldStmt, .importStmt,
    .globalStmt, .nonlocalStmt, .assertStmt,
    .compoundStmt, .ifStmt, .whileStmt, .forStmt, .tryStmt, .withStmt, .funcdef, .classdef,
    .decorated, .asyncStmt,
    .testlistStarExpr, .testlist, .test, .testNocond, .lambdef, .lambdefNocond, .orTest,
    .andTest, .notTest, .comparison, .compOp, .starExpr, .expr, .xorExpr, .andExpr, .shiftExpr,
    .arithExpr, .term, .factor, .power, .atomExpr, .atom, .trailer, .testlistComp, .yieldExpr,
    .yieldArg]

/-- The name that the grammar gives a rule. -/
def name : Rule → String
  | .fileInput => "file_input"
  | .singleInput => "single_input"
  | .evalInput => "eval_input"
  | .stmt => "stmt"
  | .simpleStmt => "simple_stmt"
  | .smallStmt => "small_stmt"
  | .exprStmt => "expr_stmt"
  | .annassign => "annassign"
  | .augassign => "augassign"
  | .delStmt => "del_stmt"
  | .passStmt => "pass_stmt"
  | .flowStmt => "flow_stmt"
  | .breakStmt => "break_stmt"
  | .continueStmt => "continue_stmt"
  | .returnStmt => "return_stmt"
  | .raiseStmt => "raise_stmt"
  | .yieldStmt => "yield_stmt"
  | .importStmt => "import_stmt"
  | .globalStmt => "global_stmt"
  | .nonlocalStmt => "nonlocal_stmt"
  | .assertStmt => "assert_stmt"
  | .compoundStmt => "compound_stmt"
  | .ifStmt => "if_stmt"
  | .whileStmt => "while_stmt"
  | .forStmt => "for_stmt"
  | .tryStmt => "try_stmt"
  | .withStmt => "with_stmt"
  | .funcdef => "funcdef"
  | .classdef => "classdef"
  | .decorated => "decorated"
  | .asyncStmt => "async_stmt"
  | .testlistStarExpr => "testlist_star_expr"
  | .testlist => "testlist"
  | .test => "test"
  | .testNocond => "test_nocond"
  | .lambdef => "lambdef"
  | .lambdefNocond => "lambdef_nocond"
  | .orTest => "or_test"
  | .andTest => "and_test"
  | .notTest => "not_test"
  | .comparison => "comparison"
  | .compOp => "comp_op"
  | .starExpr => "star_expr"
  | .expr => "expr"
  | .xorExpr => "xor_expr"
  | .andExpr => "and_expr"
  | .shiftExpr => "shift_expr"
  | .arithExpr => "arith_expr"
  | .term => "term"
  | .factor => "factor"
  | .power => "power"
  | .atomExpr => "atom_expr"
  | .atom => "atom"
  | .trailer => "trailer"
  | .testlistComp => "testlist_comp"
  | .yieldExpr => "yield_expr"
  | .yieldArg => "yield_arg"

/-- The rule that a name stands for. -/
def ofName? (name : String) : Option Rule :=
  all.find? fun rule => rule.name == name

/-- A rule is read back from its name. -/
theorem ofName?_name (rule : Rule) : ofName? rule.name = some rule := by
  cases rule <;> decide +kernel

end Rule

end ScriptLowering
