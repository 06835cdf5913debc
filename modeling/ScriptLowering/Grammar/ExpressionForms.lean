import ScriptLowering.Grammar.Precedence
import ScriptLowering.Text.Words

/-!
# Trees of expressions

Builders for the expression forms of the grammar.  Each takes the parts that
vary and supplies the fixed tokens; an operand that binds tighter than its
place requires is lifted to it.  Nothing built here has a position until it is
laid out.

Main definitions:

- `Tree.chain`: a flat chain of operands and operators of one rule.
- `Tree.commaSeparated`: the items of a list with commas between them.
-/

namespace ScriptLowering
namespace Tree

/-! ## Operator chains -/

/-- The operator of a chain.  In a comparison, one that is written with spaces is a node with one
reserved word for each of its words. -/
def chainOperator (rule : Rule) (operator : String) : Tree :=
  if rule == .comparison && operator.toList.contains ' ' then
    ofChildren .compOp ((Text.words operator).map fun word => .leaf (.keyword word))
  else .leaf (.operator operator)

/-- The operators and operands that follow the first operand of a chain. -/
def chainRest (rule : Rule) (rest : List (String × Tree)) : List Tree :=
  rest.flatMap fun (operator, operand) =>
    [chainOperator rule operator, operand.lift rule.operand]

/-- A flat chain: the first operand, then an operator before each further operand. -/
def chain (rule : Rule) (first : Tree) (rest : List (String × Tree)) : Tree :=
  ofChildren rule (first.lift rule.operand :: chainRest rule rest)

/-! ## Atoms -/

/-- An atom that is one token. -/
def atom (token : Token) : Tree :=
  ofChildren .atom [.leaf token]

/-- A name. -/
def identifier (text : String) : Tree :=
  atom (.name text)

/-- A number. -/
def numeral (text : String) : Tree :=
  atom (.number text)

/-- A single string. -/
def stringLiteral (text : String) : Tree :=
  atom (.string text)

/-- One of the constants that are reserved words. -/
def constant (text : String) : Tree :=
  atom (.keyword text)

/-- The literal of three dots. -/
def ellipsis : Tree :=
  atom (.operator "...")

/-- Strings that stand next to each other. -/
def adjacentStrings (texts : List String) : Tree :=
  ofChildren .atom (texts.map fun text => .leaf (.string text))

/-- The items of a list with a comma between each two; items below the given rule are lifted to it,
starred items stay as they are. -/
def commaSeparated (items : List Tree) (rule : Rule) : List Tree :=
  (items.map fun item => if item.isNode .starExpr then item else item.lift rule).intersperse
    (.leaf (.operator ","))

/-- An expression in parentheses. -/
def parenthesized (inner : Tree) : Tree :=
  ofChildren .atom
    [ .leaf (.operator "("),
      ofChildren .testlistComp [inner.lift .test],
      .leaf (.operator ")")]

/-- Items in square brackets. -/
def listDisplay (items : List Tree) : Tree :=
  let content :=
    if items.isEmpty then [] else [ofChildren .testlistComp (commaSeparated items .test)]
  ofChildren .atom ([.leaf (.operator "[")] ++ content ++ [.leaf (.operator "]")])

/-- A pair of braces with nothing between them. -/
def emptyBraces : Tree :=
  ofChildren .atom [.leaf (.operator "\x7b"), .leaf (.operator "\x7d")]

/-! ## Trailers and powers -/

/-- A call with at most one argument. -/
def callTrailer (argument : Option Tree) : Tree :=
  ofChildren .trailer
    ([.leaf (.operator "(")] ++ (argument.map fun tree => tree.lift .test).toList
      ++ [.leaf (.operator ")")])

/-- An index in square brackets. -/
def subscriptTrailer (index : Tree) : Tree :=
  ofChildren .trailer [.leaf (.operator "["), index.lift .test, .leaf (.operator "]")]

/-- A dot with the name of an attribute. -/
def attributeTrailer (member : String) : Tree :=
  ofChildren .trailer [.leaf (.operator "."), .leaf (.name member)]

/-- An atom with its trailers. -/
def withTrailers (base : Tree) (trailers : List Tree) : Tree :=
  ofChildren .atomExpr (base :: trailers)

/-- An atom that is awaited. -/
def awaited (base : Tree) : Tree :=
  ofChildren .atomExpr [.leaf (.keyword "await"), base]

/-- A base raised to an exponent. -/
def power (base exponent : Tree) : Tree :=
  ofChildren .power [base.lift .atomExpr, .leaf (.operator "**"), exponent.lift .factor]

/-! ## Prefix operators -/

/-- A prefix operator and its operand. -/
def factor (operator : String) (operand : Tree) : Tree :=
  ofChildren .factor [.leaf (.operator operator), operand.lift .factor]

/-- A negated test. -/
def negation (operand : Tree) : Tree :=
  ofChildren .notTest [.leaf (.keyword "not"), operand.lift .notTest]

/-- A starred expression. -/
def starred (operand : Tree) : Tree :=
  ofChildren .starExpr [.leaf (.operator "*"), operand.lift .expr]

/-! ## Tests and lists of tests -/

/-- A function without parameters, as a test. -/
def lambda (body : Tree) : Tree :=
  ofChildren .test
    [ofChildren .lambdef [.leaf (.keyword "lambda"), .leaf (.operator ":"), body.lift .test]]

/-- A choice between two expressions. -/
def conditional (body condition alternative : Tree) : Tree :=
  ofChildren .test
    [ body.lift .orTest, .leaf (.keyword "if"), condition.lift .orTest,
      .leaf (.keyword "else"), alternative.lift .test]

/-- A list of items under the given rule, with or without a comma after the last. -/
def listOf (rule : Rule) (items : List Tree) (trailingComma : Bool) : Tree :=
  ofChildren rule
    (commaSeparated items .test ++ if trailingComma then [.leaf (.operator ",")] else [])

/-- A list that may hold starred items. -/
def testlistStarExpr (items : List Tree) (trailingComma : Bool) : Tree :=
  listOf .testlistStarExpr items trailingComma

/-- A list of tests. -/
def testlist (items : List Tree) (trailingComma : Bool) : Tree :=
  listOf .testlist items trailingComma

/-- A yield, with the value it yields or without one. -/
def yielded (value : Option Tree) : Tree :=
  ofChildren .yieldExpr
    (.leaf (.keyword "yield") ::
      (value.map fun tree => ofChildren .yieldArg [testlist [tree] false]).toList)

end Tree
end ScriptLowering
