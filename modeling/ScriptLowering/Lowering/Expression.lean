import ScriptLowering.Grammar.Precedence
import ScriptLowering.Lowering.Connective
import ScriptLowering.Lowering.Integer
import ScriptLowering.Subset.Error

/-!
# Lowering expressions

Every rule of the grammar has a form that says how the children of its nodes
are read.  Lowering descends from a node to the operands that its form
prescribes, checks the rule of each before it goes on, and stops at the first
error in reading order.  Chains of operators fold from left to right, so every
operator of a script groups to the left.

| Form | Rules | Kept |
|------|-------|------|
| list | `testlist_star_expr`, `testlist` | a single item |
| test | `test`, `test_nocond` | anything but conditionals and lambdas |
| chain | `or_test` to `term` | the connectives of the rule |
| negation | `not_test` | `not` |
| factor | `factor` | `+` and `-` |
| power, atomExpr | `power`, `atom_expr` | the operand alone |
| atom | `atom` | names, integers, truth values and single strings |

Main definitions:

- `lowerAs`: lowers the children of a node as those of a given rule.
- `lowerExpression`: lowers a node as its own rule.
- `lowerTest`, `lowerTestlist`: lower a node as a test, or as a list of tests.
-/

namespace ScriptLowering

/-- How the children of an expression rule are read. -/
inductive Form where
  | list | test | chain | negation | factor | power | atomExpr | atom
  /-- A rule that is outside the subset whatever its children are. -/
  | refused (construct : Construct)
  /-- A rule that is no expression. -/
  | foreign
deriving DecidableEq, Inhabited

/-- The form of a rule. -/
def Rule.form : Rule → Form
  | .testlistStarExpr | .testlist => .list
  | .test | .testNocond => .test
  | .lambdef | .lambdefNocond => .refused .lambdaExpressions
  | .orTest | .andTest | .comparison | .expr | .xorExpr | .andExpr | .shiftExpr | .arithExpr
  | .term => .chain
  | .notTest => .negation
  | .starExpr => .refused .starredExpressions
  | .factor => .factor
  | .power => .power
  | .atomExpr => .atomExpr
  | .atom => .atom
  | .yieldExpr => .refused .yieldExpressions
  | _ => .foreign

/-! ## Atoms -/

/-- The value of a number. -/
def lowerNumber (text : String) (span : Span) : Lowered LiteralValue :=
  match IntegerLiteral.value? text with
  | .ok value => .ok (.integer value)
  | .error .notInteger => refuse .nonIntegerLiterals span
  | .error .overflow => refuse .integerOverflow span
  | .error .malformed => .error (.parse ⟨span, .malformedInteger text⟩)

/-- The value of the only token of an atom. -/
def lowerLiteral (atom : Tree) (token : Token) : Lowered LiteralValue :=
  match token.kind with
  | .name => .ok (.name token.text)
  | .number => lowerNumber token.text atom.span
  | .string => .ok (.string token.text)
  | .keyword =>
    if token.text == "True" then .ok (.boolean true)
    else if token.text == "False" then .ok (.boolean false)
    else if token.text == "None" then refuse .noneLiteral atom.span
    else mismatch atom "`True`, `False` or `None`"
  | .operator =>
    if token.text == "..." then refuse .ellipsis atom.span else mismatch atom "a literal"
  | .newline | .indent | .dedent | .endmarker => mismatch atom "a literal"

/-- A tree is a string token. -/
def isStringToken (tree : Tree) : Bool :=
  match tree with
  | .leaf token => token.kind == .string
  | .node _ _ _ => false

/-- The construct that an atom of several children is, told by its first token. -/
def compositeAtom? (first : Token) (children : List Tree) : Option Construct :=
  if first.text == "(" then some .parenthesizedExpressions
  else if first.text == "[" then some .listDisplays
  else if first.text == "\x7b" then some .dictOrSetDisplays
  else if children.all isStringToken then some .implicitStringConcatenation
  else none

/-- Lowers an atom: a name, an integer, a truth value or a single string. -/
def lowerAtom (atom : Tree) : Lowered Expr :=
  match atom.children with
  | [.leaf token] => do
    let value ← lowerLiteral atom token
    return .literal value token.text atom.span
  | .leaf first :: _ =>
    match compositeAtom? first atom.children with
    | some construct => refuse construct atom.span
    | none => mismatch atom "a single literal token"
  | _ => mismatch atom "a token"

/-! ## Trailers -/

/-- The construct that a trailer is, told by its first token. -/
def trailerConstruct? (trailer : Tree) : Option Construct :=
  match trailer.firstToken? with
  | some token =>
    if token.text == "(" then some .functionCalls
    else if token.text == "[" then some .subscripts
    else if token.text == "." then some .attributeAccess
    else none
  | none => none

/-- Stops at the first of the trees that follow an atom. -/
def refuseTrailer (atomExpr trailer : Tree) : Lowered Expr :=
  if trailer.isNode .trailer then
    match trailerConstruct? trailer with
    | some construct => refuse construct trailer.span
    | none => mismatch trailer "`(`, `[` or `.`"
  else mismatch atomExpr "`trailer`"

/-! ## Operators and operands of a chain -/

/-- The text and the place of the operator between two operands: a token, or a node that holds the
words of a comparison operator. -/
def operatorText (operator : Tree) : Lowered (String × Span) :=
  match operator with
  | .leaf token => .ok (token.text, token.span)
  | .node rule _ span =>
    if rule == .compOp then .ok (operator.tokenText, span) else mismatch operator "an operator"

/-- The operator between two operands, if the rule of the chain keeps it. -/
def lowerConnective (rule : Rule) (operator : Tree) : Lowered Connective := do
  let (text, span) ← operatorText operator
  match rule.connective? text with
  | some connective => return connective
  | none => refuse (.operator text) span

/-- Stops at an operand that does not apply the rule that the chain prescribes. -/
def checkOperand (rule : Rule) (chain operand : Tree) : Lowered Unit :=
  match operand.rule? with
  | some own => if own == rule then .ok () else mismatch operand rule.name
  | none => mismatch chain rule.name

/-! ## The descent -/

mutual

/-- Lowers the children of a node as those of the given rule. -/
def lowerAs (rule : Rule) (tree : Tree) : Lowered Expr :=
  match tree with
  | .leaf _ => mismatch tree "an expression"
  | .node _ children span =>
    match rule.form with
    | .list =>
      match children with
      | [] => mismatch tree "at least one element"
      | [item] =>
        match item.rule? with
        | some .test => lowerAs .test item
        | some .starExpr => refuse .starredExpressions item.span
        | some _ => mismatch item "`test` or `star_expr`"
        | none => refuse .tupleExpressions span
      | _ :: _ :: _ => refuse .tupleExpressions span
    | .test =>
      match children with
      | [] => mismatch tree "`or_test`"
      | [inner] =>
        match inner.rule? with
        | some .orTest => lowerAs .orTest inner
        | some .lambdef | some .lambdefNocond => refuse .lambdaExpressions inner.span
        | some _ => mismatch inner "`or_test` or `lambdef`"
        | none => mismatch tree "`or_test`"
      | body :: _ :: _ =>
        if body.isNode .orTest then refuse .conditionalExpressions span
        else mismatch tree "`or_test`"
    | .chain =>
      if rule == .comparison && 3 < children.length then refuse .chainedComparisons span
      else if children.length % 2 == 0 then mismatch tree "an odd-length operand/operator chain"
      else
        match children with
        | [] => mismatch tree "an odd-length operand/operator chain"
        | first :: rest => do
          checkOperand rule.operand tree first
          let left ← lowerAs rule.operand first
          lowerRest rule tree left rest
    | .negation =>
      match children with
      | [comparison] =>
        if comparison.isNode .comparison then lowerAs .comparison comparison
        else mismatch tree "`not not_test` or `comparison`"
      | [word, operand] =>
        if word.isToken .keyword "not" && operand.isNode .notTest then do
          let argument ← lowerAs .notTest operand
          return .unary .not argument span
        else mismatch tree "`not not_test` or `comparison`"
      | _ => mismatch tree "`not not_test` or `comparison`"
    | .factor =>
      match children with
      | [power] =>
        if power.isNode .power then lowerAs .power power
        else mismatch tree "a prefix operator or `power`"
      | [.leaf sign, operand] =>
        if operand.isNode .factor then
          match sign? sign.text with
          | some operator => do
            let argument ← lowerAs .factor operand
            return .unary operator argument span
          | none => refuse (.operator sign.text) sign.span
        else mismatch tree "a prefix operator or `power`"
      | _ => mismatch tree "a prefix operator or `power`"
    | .power =>
      match children with
      | [base] =>
        if base.isNode .atomExpr then lowerAs .atomExpr base
        else mismatch tree "`atom_expr` or `atom_expr ** factor`"
      | [base, .leaf operator, .node _ _ _] =>
        if base.isNode .atomExpr then refuse (.operator operator.text) operator.span
        else mismatch tree "`atom_expr` or `atom_expr ** factor`"
      | _ => mismatch tree "`atom_expr` or `atom_expr ** factor`"
    | .atomExpr =>
      match children with
      | .node own grandchildren place :: trailers =>
        if own == .atom then
          match trailers with
          | [] => lowerAtom (.node own grandchildren place)
          | trailer :: _ => refuseTrailer tree trailer
        else mismatch (.node own grandchildren place) "`atom`"
      | .leaf first :: _ =>
        if first.is .keyword "await" then refuse .awaitExpressions span
        else mismatch tree "`atom` followed by trailers"
      | [] => mismatch tree "`atom` followed by trailers"
    | .atom => lowerAtom tree
    | .refused construct => refuse construct span
    | .foreign => mismatch tree "an expression"

/-- Folds the operators and operands that follow `left` in a chain. -/
def lowerRest (rule : Rule) (chain : Tree) (left : Expr) : List Tree → Lowered Expr
  | [] => .ok left
  | [_] => mismatch chain "an odd-length operand/operator chain"
  | operator :: operand :: rest => do
    let connective ← lowerConnective rule operator
    checkOperand rule.operand chain operand
    let right ← lowerAs rule.operand operand
    lowerRest rule chain (connective.apply left right) rest

end

/-- Lowers a node as its own rule. -/
def lowerExpression (tree : Tree) : Lowered Expr :=
  match tree.rule? with
  | some rule => lowerAs rule tree
  | none => mismatch tree "an expression"

/-- Lowers a node as a test, whatever its own rule is. -/
def lowerTest (tree : Tree) : Lowered Expr :=
  lowerAs .test tree

/-- Lowers a node as a list of tests, whatever its own rule is. -/
def lowerTestlist (tree : Tree) : Lowered Expr :=
  lowerAs .testlist tree

end ScriptLowering
