import ScriptLowering.Grammar.Rule
import ScriptLowering.Grammar.Token

/-!
# Concrete trees

A concrete tree is what a grammar parser produces: one interior node for every
application of a rule, with the tokens at the leaves and nothing collapsed.  A
lone literal therefore stands under the whole ladder of precedence rules, and
`a - b - c` is one node with five children.

Main definitions:

- `Tree.ofChildren`: a node that covers its children, from the first to the last.
- `Tree.tokens`: the tokens of a tree in document order.
- `Tree.firstToken?`: the leftmost token, found without visiting the rest.
- `Tree.tokenText`: the texts of all tokens, joined by single spaces.
-/

namespace ScriptLowering

/-- A leaf that holds a token, or the application of a rule to a list of trees. -/
inductive Tree where
  | leaf (token : Token)
  | node (rule : Rule) (children : List Tree) (span : Span)
deriving Inhabited

namespace Tree

/-! ## Parts of one tree -/

/-- The stretch of source that a tree stands for. -/
def span : Tree → Span
  | .leaf token => token.span
  | .node _ _ span => span

/-- The rule that a node applies; a token applies none. -/
def rule? : Tree → Option Rule
  | .leaf _ => none
  | .node rule _ _ => some rule

/-- The token that a leaf holds. -/
def token? : Tree → Option Token
  | .leaf token => some token
  | .node _ _ _ => none

/-- The subtrees directly under a node, in order; a token has none. -/
def children : Tree → List Tree
  | .leaf _ => []
  | .node _ children _ => children

/-- The name of what stands at the root: a rule, or a lexical class. -/
def label : Tree → String
  | .leaf token => token.kind.label
  | .node rule _ _ => rule.name

/-- The root applies the given rule. -/
def isNode (tree : Tree) (rule : Rule) : Bool :=
  tree.rule? == some rule

/-- The root is a token of the given class and text. -/
def isToken (tree : Tree) (kind : TokenKind) (text : String) : Bool :=
  match tree with
  | .leaf token => token.is kind text
  | .node _ _ _ => false

@[simp]
theorem span_leaf (token : Token) : (Tree.leaf token).span = token.span :=
  rfl

@[simp]
theorem span_node (rule : Rule) (children : List Tree) (span : Span) :
    (Tree.node rule children span).span = span :=
  rfl

@[simp]
theorem rule?_leaf (token : Token) : (Tree.leaf token).rule? = none :=
  rfl

@[simp]
theorem rule?_node (rule : Rule) (children : List Tree) (span : Span) :
    (Tree.node rule children span).rule? = some rule :=
  rfl

@[simp]
theorem children_leaf (token : Token) : (Tree.leaf token).children = [] :=
  rfl

@[simp]
theorem children_node (rule : Rule) (children : List Tree) (span : Span) :
    (Tree.node rule children span).children = children :=
  rfl

/-! ## Building a node from its children -/

/-- The span from the first tree of a list to the last; an empty list has no position. -/
def cover (trees : List Tree) : Span :=
  match trees.head?, trees.getLast? with
  | some first, some last => first.span.merge last.span
  | _, _ => .unplaced

/-- A node that covers its children. -/
def ofChildren (rule : Rule) (children : List Tree) : Tree :=
  .node rule children (cover children)

@[simp]
theorem rule?_ofChildren (rule : Rule) (children : List Tree) :
    (ofChildren rule children).rule? = some rule :=
  rfl

@[simp]
theorem children_ofChildren (rule : Rule) (children : List Tree) :
    (ofChildren rule children).children = children :=
  rfl

/-! ## Direct children -/

/-- The children of a node that are nodes themselves. -/
def childNodes (tree : Tree) : List Tree :=
  tree.children.filter fun child => child.rule?.isSome

/-- The children of a node that are tokens. -/
def childTokens (tree : Tree) : List Token :=
  tree.children.filterMap token?

/-- The first child that applies the given rule. -/
def findChild? (tree : Tree) (rule : Rule) : Option Tree :=
  tree.children.find? fun child => child.isNode rule

/-- The subtree reached by following child indices from the root. -/
def descend? (tree : Tree) : List Nat → Option Tree
  | [] => some tree
  | index :: path => do
    let child ← tree.children[index]?
    child.descend? path

/-! ## Walking the whole tree -/

mutual

/-- All tokens of a tree in document order. -/
def tokens : Tree → List Token
  | .leaf token => [token]
  | .node _ children _ => tokensOfAll children

/-- All tokens of a list of trees in document order. -/
def tokensOfAll : List Tree → List Token
  | [] => []
  | tree :: trees => tokens tree ++ tokensOfAll trees

end

/-- The tokens of several trees are those of each of them, in order. -/
@[simp]
theorem tokensOfAll_eq_flatMap (trees : List Tree) : tokensOfAll trees = trees.flatMap tokens := by
  induction trees with
  | nil => rfl
  | cons tree trees ih => simp [tokensOfAll, ih]

@[simp]
theorem tokens_leaf (token : Token) : (Tree.leaf token).tokens = [token] := by
  rw [tokens]

/-- The tokens of a node are those of its children, in order. -/
@[simp]
theorem tokens_node (rule : Rule) (children : List Tree) (span : Span) :
    (Tree.node rule children span).tokens = children.flatMap tokens := by
  rw [tokens, tokensOfAll_eq_flatMap]

mutual

/-- The leftmost token of a tree; a tree without tokens has none. -/
def firstToken? : Tree → Option Token
  | .leaf token => some token
  | .node _ children _ => firstTokenOfAll? children

/-- The leftmost token of a list of trees. -/
def firstTokenOfAll? : List Tree → Option Token
  | [] => none
  | tree :: trees =>
    match firstToken? tree with
    | some token => some token
    | none => firstTokenOfAll? trees

end

/-- The texts of all tokens of a tree, in document order and joined by single spaces. -/
def tokenText (tree : Tree) : String :=
  " ".intercalate (tree.tokens.map Token.text)

mutual

/-- Every subtree with its depth, a node before its children. -/
def preorder (depth : Nat) : Tree → List (Nat × Tree)
  | .leaf token => [(depth, .leaf token)]
  | .node rule children span =>
    (depth, .node rule children span) :: preorderOfAll (depth + 1) children

/-- The subtrees of a list of trees, one tree after the other. -/
def preorderOfAll (depth : Nat) : List Tree → List (Nat × Tree)
  | [] => []
  | tree :: trees => preorder depth tree ++ preorderOfAll depth trees

end

/-! ## Equality -/

mutual

/-- Two trees agree in shape, rules, tokens and spans. -/
def beq : Tree → Tree → Bool
  | .leaf a, .leaf b => a == b
  | .node r as s, .node r' bs s' => r == r' && s == s' && beqAll as bs
  | .leaf _, .node _ _ _ => false
  | .node _ _ _, .leaf _ => false

/-- Two lists of trees have the same length and agree position by position. -/
def beqAll : List Tree → List Tree → Bool
  | [], [] => true
  | a :: as, b :: bs => beq a b && beqAll as bs
  | [], _ :: _ => false
  | _ :: _, [] => false

end

mutual

/-- The comparison of trees decides whether they are equal. -/
theorem beq_iff_eq : ∀ a b : Tree, beq a b = true ↔ a = b
  | .leaf a, .leaf b => by simp [beq]
  | .node r as s, .node r' bs s' => by
    simp [beq, beqAll_iff_eq as bs]
    grind
  | .leaf _, .node _ _ _ => by simp [beq]
  | .node _ _ _, .leaf _ => by simp [beq]

theorem beqAll_iff_eq : ∀ as bs : List Tree, beqAll as bs = true ↔ as = bs
  | [], [] => by simp [beqAll]
  | a :: as, b :: bs => by simp [beqAll, beq_iff_eq a b, beqAll_iff_eq as bs]
  | [], _ :: _ => by simp [beqAll]
  | _ :: _, [] => by simp [beqAll]

end

instance : DecidableEq Tree := fun a b =>
  decidable_of_iff (beq a b = true) (beq_iff_eq a b)

end Tree

end ScriptLowering
