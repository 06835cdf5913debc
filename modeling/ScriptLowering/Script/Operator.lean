/-!
# Operators of a script

The closed sets of operators that a script is made of.  Every operator has a
symbol, which is how the script writes it, and a spelling, which is how the
source language writes it; they differ for negation, conjunction and
disjunction only.

Main results:

- `UnaryOperator.ofSymbol?_symbol` and its siblings: a symbol determines its operator.
-/

namespace ScriptLowering

/-! ## Prefix operators -/

/-- An operator in front of its only operand. -/
inductive UnaryOperator where
  | plus | minus | not
deriving DecidableEq, Inhabited

namespace UnaryOperator

def all : List UnaryOperator := [.plus, .minus, .not]

/-- The symbol of a prefix operator. -/
def symbol : UnaryOperator → String
  | .plus => "+"
  | .minus => "-"
  | .not => "!"

/-- How the source language spells a prefix operator. -/
def spelling : UnaryOperator → String
  | .plus => "+"
  | .minus => "-"
  | .not => "not"

def ofSymbol? (symbol : String) : Option UnaryOperator :=
  all.find? fun operator => operator.symbol == symbol

/-- An operator is read back from its symbol. -/
theorem ofSymbol?_symbol (operator : UnaryOperator) :
    ofSymbol? operator.symbol = some operator := by
  cases operator <;> decide

/-- The symbol of a prefix operator determines it. -/
theorem symbol_inj {a b : UnaryOperator} (h : a.symbol = b.symbol) : a = b := by
  have hsome : some a = some b := by rw [← ofSymbol?_symbol a, h, ofSymbol?_symbol b]
  exact Option.some.inj hsome

end UnaryOperator

/-! ## Operators with two operands -/

/-- Arithmetic, bitwise or, and the comparisons. -/
inductive BinaryOperator where
  | add | subtract | multiply | divide
  | bitOr
  | greater | less | greaterEqual | lessEqual | notEqual | isIn
deriving DecidableEq, Inhabited

namespace BinaryOperator

def all : List BinaryOperator :=
  [ .add, .subtract, .multiply, .divide, .bitOr,
    .greater, .less, .greaterEqual, .lessEqual, .notEqual, .isIn]

/-- The symbol of a binary operator; the source language spells it in the same way. -/
def symbol : BinaryOperator → String
  | .add => "+"
  | .subtract => "-"
  | .multiply => "*"
  | .divide => "/"
  | .bitOr => "|"
  | .greater => ">"
  | .less => "<"
  | .greaterEqual => ">="
  | .lessEqual => "<="
  | .notEqual => "!="
  | .isIn => "in"

/-- An operator that compares its operands. -/
def isComparison : BinaryOperator → Bool
  | .greater | .less | .greaterEqual | .lessEqual | .notEqual | .isIn => true
  | .add | .subtract | .multiply | .divide | .bitOr => false

def ofSymbol? (symbol : String) : Option BinaryOperator :=
  all.find? fun operator => operator.symbol == symbol

/-- An operator is read back from its symbol. -/
theorem ofSymbol?_symbol (operator : BinaryOperator) :
    ofSymbol? operator.symbol = some operator := by
  cases operator <;> decide

/-- The symbol of a binary operator determines it. -/
theorem symbol_inj {a b : BinaryOperator} (h : a.symbol = b.symbol) : a = b := by
  have hsome : some a = some b := by rw [← ofSymbol?_symbol a, h, ofSymbol?_symbol b]
  exact Option.some.inj hsome

end BinaryOperator

/-- An operator that may leave its second operand unevaluated. -/
inductive LogicalOperator where
  | and | or
deriving DecidableEq, Inhabited

namespace LogicalOperator

def all : List LogicalOperator := [.and, .or]

/-- The symbol of a logical operator. -/
def symbol : LogicalOperator → String
  | .and => "&&"
  | .or => "||"

/-- How the source language spells a logical operator. -/
def spelling : LogicalOperator → String
  | .and => "and"
  | .or => "or"

def ofSymbol? (symbol : String) : Option LogicalOperator :=
  all.find? fun operator => operator.symbol == symbol

/-- An operator is read back from its symbol. -/
theorem ofSymbol?_symbol (operator : LogicalOperator) :
    ofSymbol? operator.symbol = some operator := by
  cases operator <;> decide

/-- The symbol of a logical operator determines it. -/
theorem symbol_inj {a b : LogicalOperator} (h : a.symbol = b.symbol) : a = b := by
  have hsome : some a = some b := by rw [← ofSymbol?_symbol a, h, ofSymbol?_symbol b]
  exact Option.some.inj hsome

end LogicalOperator

/-! ## Assignment operators -/

/-- Plain assignment and the augmented assignments. -/
inductive AssignmentOperator where
  | assign | addAssign | subtractAssign | multiplyAssign | divideAssign
deriving DecidableEq, Inhabited

namespace AssignmentOperator

def all : List AssignmentOperator :=
  [.assign, .addAssign, .subtractAssign, .multiplyAssign, .divideAssign]

/-- The symbol of an assignment operator; the source language spells it in the same way. -/
def symbol : AssignmentOperator → String
  | .assign => "="
  | .addAssign => "+="
  | .subtractAssign => "-="
  | .multiplyAssign => "*="
  | .divideAssign => "/="

/-- The operator that an augmented assignment applies before it assigns. -/
def binary? : AssignmentOperator → Option BinaryOperator
  | .assign => none
  | .addAssign => some .add
  | .subtractAssign => some .subtract
  | .multiplyAssign => some .multiply
  | .divideAssign => some .divide

def ofSymbol? (symbol : String) : Option AssignmentOperator :=
  all.find? fun operator => operator.symbol == symbol

/-- An operator is read back from its symbol. -/
theorem ofSymbol?_symbol (operator : AssignmentOperator) :
    ofSymbol? operator.symbol = some operator := by
  cases operator <;> decide

/-- The symbol of an assignment operator determines it. -/
theorem symbol_inj {a b : AssignmentOperator} (h : a.symbol = b.symbol) : a = b := by
  have hsome : some a = some b := by rw [← ofSymbol?_symbol a, h, ofSymbol?_symbol b]
  exact Option.some.inj hsome

/-- An augmented assignment is written as the operator it applies and an equals sign. -/
theorem symbol_of_binary? {operator : AssignmentOperator} {applied : BinaryOperator}
    (h : operator.binary? = some applied) : operator.symbol = applied.symbol ++ "=" := by
  cases operator <;> cases h <;> rfl

end AssignmentOperator

end ScriptLowering
