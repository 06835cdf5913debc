import ScriptLowering.Grammar.Tree
import ScriptLowering.Proofs.IntegerLiterals

/-!
# Trees of the expression grammar

The productions of the expression grammar, and the part of it that a script can
express.  The grammar says which children a node may have; the subset is one
condition on each node by itself, and a tree is in the subset when all of its
parts meet it.  Neither refers to lowering.

Main definitions:

- `Tree.Conforms`: a tree is built by the productions of the grammar.
- `Tree.IsPartOf`: a tree is a subtree of another, or that tree itself.
- `Tree.Admitted`: the condition on a single node.
- `Tree.InSubset`: all parts of a tree are admitted.
-/

namespace ScriptLowering

/-! ## Productions -/

/-- The rules of chains, each with the rule of its operands. -/
def Rule.chains : List (Rule × Rule) :=
  [ (.orTest, .andTest), (.andTest, .notTest), (.comparison, .expr), (.expr, .xorExpr),
    (.xorExpr, .andExpr), (.andExpr, .shiftExpr), (.shiftExpr, .arithExpr), (.arithExpr, .term),
    (.term, .factor)]

/-- A token that is an atom by itself. -/
def Token.IsAtom (token : Token) : Prop :=
  token.kind ∈ [.name, .number, .string] ∨ token.is .operator "..." ∨
    token.kind = .keyword ∧ token.text ∈ ["None", "True", "False"]

namespace Tree

/-- Items with a comma between each two, and after the last or not. -/
inductive CommaSeparated : List Tree → List Tree → Prop
  | single (item : Tree) : CommaSeparated [item] [item]
  | trailing (item : Tree) {comma : Token} (hcomma : comma.text = ",") :
      CommaSeparated [item] [item, .leaf comma]
  | cons (item : Tree) {items children : List Tree} {comma : Token} (hcomma : comma.text = ",")
      (hrest : CommaSeparated items children) :
      CommaSeparated (item :: items) (item :: .leaf comma :: children)

/-- What may stand between the operands of a chain of the given rule. -/
inductive IsOperatorOf : Rule → Tree → Prop
  | token {rule : Rule} {token : Token} (hor : rule = .orTest → token.text = "or")
      (hand : rule = .andTest → token.text = "and") : IsOperatorOf rule (.leaf token)
  | words {words : List Token} {span : Span} (hwords : words ≠ []) :
      IsOperatorOf .comparison (.node .compOp (words.map .leaf) span)

/-- A call, a subscript or an attribute, told by its first token. -/
def IsTrailer (tree : Tree) : Prop :=
  tree.rule? = some .trailer ∧ ∃ token, tree.firstToken? = some token ∧ token.text ∈ ["(", "[", "."]

/-- The children of a chain after its first operand. -/
def chainTail (steps : List (Tree × Tree)) : List Tree :=
  steps.flatMap fun step => [step.1, step.2]

/-- A tree is an expression of the source grammar. -/
inductive Conforms : Tree → Prop
  | list {rule : Rule} {items children : List Tree} {span : Span}
      (hrule : rule = .testlistStarExpr ∨ rule = .testlist)
      (hchildren : CommaSeparated items children)
      (hrules : ∀ item ∈ items, item.rule? = some .test ∨ item.rule? = some .starExpr)
      (hitems : ∀ item ∈ items, item.Conforms) : Conforms (.node rule children span)
  | starred (children : List Tree) (span : Span) : Conforms (.node .starExpr children span)
  | lambda (children : List Tree) (span : Span) : Conforms (.node .lambdef children span)
  | test {inner : Tree} {span : Span}
      (hrule : inner.rule? = some .orTest ∨ inner.rule? = some .lambdef)
      (hinner : inner.Conforms) : Conforms (.node .test [inner] span)
  | conditional {body condition alternative : Tree} {first second : Token} {span : Span}
      (hfirst : first.text = "if") (hsecond : second.text = "else")
      (hbody : body.rule? = some .orTest) (hcondition : condition.rule? = some .orTest)
      (halternative : alternative.rule? = some .test) (hconforms : body.Conforms)
      (hconforms' : condition.Conforms) (hconforms'' : alternative.Conforms) :
      Conforms (.node .test [body, .leaf first, condition, .leaf second, alternative] span)
  | chain {rule below : Rule} {first : Tree} {steps : List (Tree × Tree)} {span : Span}
      (hrule : (rule, below) ∈ Rule.chains) (hbelow : first.rule? = some below)
      (hfirst : first.Conforms) (hoperators : ∀ step ∈ steps, step.1.IsOperatorOf rule)
      (hoperands : ∀ step ∈ steps, step.2.rule? = some below)
      (hrest : ∀ step ∈ steps, step.2.Conforms) :
      Conforms (.node rule (first :: chainTail steps) span)
  | negation {word : Token} {operand : Tree} {span : Span} (hword : word.is .keyword "not")
      (hrule : operand.rule? = some .notTest) (hoperand : operand.Conforms) :
      Conforms (.node .notTest [.leaf word, operand] span)
  | comparison {inner : Tree} {span : Span} (hrule : inner.rule? = some .comparison)
      (hinner : inner.Conforms) : Conforms (.node .notTest [inner] span)
  | sign {sign : Token} {operand : Tree} {span : Span} (hrule : operand.rule? = some .factor)
      (hoperand : operand.Conforms) : Conforms (.node .factor [.leaf sign, operand] span)
  | power {inner : Tree} {span : Span} (hrule : inner.rule? = some .power)
      (hinner : inner.Conforms) : Conforms (.node .factor [inner] span)
  | base {inner : Tree} {span : Span} (hrule : inner.rule? = some .atomExpr)
      (hinner : inner.Conforms) : Conforms (.node .power [inner] span)
  | exponent {base exponent : Tree} {operator : Token} {span : Span}
      (hoperator : operator.text = "**") (hrule : base.rule? = some .atomExpr)
      (hrule' : exponent.rule? = some .factor) (hbase : base.Conforms)
      (hexponent : exponent.Conforms) :
      Conforms (.node .power [base, .leaf operator, exponent] span)
  | trailed {atom : Tree} {trailers : List Tree} {span : Span} (hrule : atom.rule? = some .atom)
      (hatom : atom.Conforms) (htrailers : ∀ trailer ∈ trailers, trailer.IsTrailer) :
      Conforms (.node .atomExpr (atom :: trailers) span)
  | awaited {word : Token} {atom : Tree} {trailers : List Tree} {span : Span}
      (hword : word.is .keyword "await") (hrule : atom.rule? = some .atom) (hatom : atom.Conforms)
      (htrailers : ∀ trailer ∈ trailers, trailer.IsTrailer) :
      Conforms (.node .atomExpr (.leaf word :: atom :: trailers) span)
  | atom {token : Token} {span : Span} (htoken : token.IsAtom) :
      Conforms (.node .atom [.leaf token] span)
  | strings {strings : List Token} {span : Span} (hmany : 2 ≤ strings.length)
      (hstrings : ∀ token ∈ strings, token.kind = .string) :
      Conforms (.node .atom (strings.map .leaf) span)
  | display {bracket : Token} {rest : List Tree} {span : Span} (hkind : bracket.kind = .operator)
      (hbracket : bracket.text ∈ ["(", "[", "\x7b"]) (hrest : rest ≠ []) :
      Conforms (.node .atom (.leaf bracket :: rest) span)

end Tree

/-! ## The subset -/

/-- The spellings of the operators that a script has at a level of the grammar. -/
def Rule.keptSpellings : Rule → List String
  | .orTest => ["or"]
  | .andTest => ["and"]
  | .comparison => [">", "<", ">=", "<=", "!=", "in"]
  | .expr => ["|"]
  | .arithExpr => ["+", "-"]
  | .term => ["*", "/"]
  | .factor => ["+", "-"]
  | _ => []

/-- A token that a script has a literal for: a name, a string, a truth value, or
an integer that fits in 64 bits. -/
def Token.IsLiteral (token : Token) : Prop :=
  token.kind = .name ∨ token.kind = .string ∨
    token.kind = .keyword ∧ token.text ∈ ["True", "False"] ∨
    token.kind = .number ∧ ∃ value, IntegerLiteral.Denotes token.text value ∧
      IntegerLiteral.Fits value

namespace Tree

/-- A token, or a node that holds the words of an operator. -/
def IsOperator (tree : Tree) : Prop :=
  tree.rule? = none ∨ tree.rule? = some .compOp

/-- The operators among the children of a node are those of its level. -/
def KeepsOperators (rule : Rule) (children : List Tree) : Prop :=
  ∀ child ∈ children, child.IsOperator → child.tokenText ∈ rule.keptSpellings

/-- A node is in the subset as far as it alone can tell. -/
def Admitted : Tree → Prop
  | .leaf _ => True
  | .node rule children _ =>
    match rule with
    | .testlistStarExpr | .testlist | .test | .power | .atomExpr => children.length = 1
    | .starExpr | .lambdef => False
    | .comparison => children.length ≤ 3 ∧ KeepsOperators rule children
    | .orTest | .andTest | .expr | .xorExpr | .andExpr | .shiftExpr | .arithExpr | .term
    | .factor => KeepsOperators rule children
    | .atom => ∃ token, children = [.leaf token] ∧ token.IsLiteral
    | _ => True

/-- `part` is a subtree of a tree, or the tree itself. -/
inductive IsPartOf (part : Tree) : Tree → Prop
  | refl : IsPartOf part part
  | child {rule : Rule} {children : List Tree} {span : Span} {child : Tree}
      (hchild : child ∈ children) (hpart : part.IsPartOf child) :
      IsPartOf part (.node rule children span)

/-- A part of a child is a part of its parent. -/
theorem IsPartOf.of_mem {tree child part : Tree} (hchild : child ∈ tree.children)
    (hpart : part.IsPartOf child) : part.IsPartOf tree := by
  cases tree with
  | leaf token => contradiction
  | node rule children span => exact .child hchild hpart

/-- All parts of a tree are in the subset. -/
def InSubset (tree : Tree) : Prop :=
  ∀ part : Tree, part.IsPartOf tree → part.Admitted

@[simp]
theorem inSubset_leaf (token : Token) : (leaf token).InSubset := by
  intro part hpart
  cases hpart
  trivial

/-- A node is in the subset when it is admitted and its children are in it. -/
theorem inSubset_node_iff {rule : Rule} {children : List Tree} {span : Span} :
    (node rule children span).InSubset ↔
      (node rule children span).Admitted ∧ ∀ child ∈ children, child.InSubset := by
  constructor
  · intro h
    refine ⟨h _ .refl, ?_⟩
    intro child hchild part hpart
    exact h part (.child hchild hpart)
  · rintro ⟨hnode, hchildren⟩ part hpart
    cases hpart with
    | refl => exact hnode
    | child hchild hpart => exact hchildren _ hchild part hpart

/-- A node that is not admitted is outside the subset. -/
theorem not_inSubset {tree : Tree} (h : ¬ tree.Admitted) : ¬ tree.InSubset :=
  fun hsubset => h (hsubset tree .refl)

/-- A starred expression is outside the subset, and so is a function. -/
theorem not_inSubset_of_rule? {tree : Tree}
    (h : tree.rule? = some .starExpr ∨ tree.rule? = some .lambdef) : ¬ tree.InSubset := by
  apply not_inSubset
  cases tree with
  | leaf token => simp at h
  | node rule children span =>
      rcases h with h | h
      · obtain rfl : rule = .starExpr := by simpa using h
        exact id
      · obtain rfl : rule = .lambdef := by simpa using h
        exact id

/-! ### Chains -/

/-- An operator of a chain is an operator, and in the subset by itself. -/
theorem IsOperatorOf.isOperator {rule : Rule} {tree : Tree} (h : tree.IsOperatorOf rule) :
    tree.IsOperator ∧ tree.InSubset := by
  cases h with
  | token hor hand => exact ⟨Or.inl rfl, inSubset_leaf _⟩
  | words hwords =>
      refine ⟨Or.inr rfl, inSubset_node_iff.mpr ⟨trivial, ?_⟩⟩
      intro child hchild
      obtain ⟨token, -, rfl⟩ := List.mem_map.mp hchild
      exact inSubset_leaf token

theorem length_chainTail (steps : List (Tree × Tree)) :
    (chainTail steps).length = 2 * steps.length := by
  unfold chainTail
  induction steps with
  | nil => rfl
  | cons step steps ih => simp [ih]; omega

/-- What holds of all children after the first operand holds of both children of each step. -/
theorem forall_mem_chainTail {steps : List (Tree × Tree)} {p : Tree → Prop} :
    (∀ child ∈ chainTail steps, p child) ↔ ∀ step ∈ steps, p step.1 ∧ p step.2 := by
  unfold chainTail
  induction steps with
  | nil => simp
  | cons step steps ih => simp only [List.flatMap_cons, List.forall_mem_append, ih]; simp

/-- The operands of a chain are not operators. -/
theorem not_isOperator_of_mem_chains {rule below : Rule} {operand : Tree}
    (hrule : (rule, below) ∈ Rule.chains) (hoperand : operand.rule? = some below) :
    ¬ operand.IsOperator := by
  have hbelow : below ≠ .compOp := by
    rintro rfl
    simp [Rule.chains] at hrule
  rintro (hnone | hwords)
  · simp [hoperand] at hnone
  · exact hbelow (by simpa [hoperand] using hwords)

/-- Among the children of a chain, those at the places of operators are the
operators. -/
theorem keepsOperators_chain_iff {rule below : Rule} {first : Tree} {steps : List (Tree × Tree)}
    (hrule : (rule, below) ∈ Rule.chains) (hbelow : first.rule? = some below)
    (hoperators : ∀ step ∈ steps, step.1.IsOperatorOf rule)
    (hoperands : ∀ step ∈ steps, step.2.rule? = some below) :
    KeepsOperators rule (first :: chainTail steps) ↔
      ∀ step ∈ steps, step.1.tokenText ∈ rule.keptSpellings := by
  unfold KeepsOperators
  rw [List.forall_mem_cons, forall_mem_chainTail]
  constructor
  · rintro ⟨-, hsteps⟩ step hstep
    exact (hsteps step hstep).1 (hoperators step hstep).isOperator.1
  · intro hsteps
    have hfirst := not_isOperator_of_mem_chains hrule hbelow
    refine ⟨fun h => absurd h hfirst, ?_⟩
    intro step hstep
    have hoperand := not_isOperator_of_mem_chains hrule (hoperands step hstep)
    exact ⟨fun _ => hsteps step hstep, fun h => absurd h hoperand⟩

/-- Only a comparison has a condition on its length. -/
theorem admitted_chain_iff {rule below : Rule} {children : List Tree} {span : Span}
    (hrule : (rule, below) ∈ Rule.chains) :
    (node rule children span).Admitted ↔
      (rule = .comparison → children.length ≤ 3) ∧ KeepsOperators rule children := by
  simp only [Rule.chains, List.mem_cons, Prod.mk.injEq, List.not_mem_nil, or_false] at hrule
  rcases hrule with ⟨rfl, -⟩ | ⟨rfl, -⟩ | ⟨rfl, -⟩ | ⟨rfl, -⟩ | ⟨rfl, -⟩ | ⟨rfl, -⟩ | ⟨rfl, -⟩ |
    ⟨rfl, -⟩ | ⟨rfl, -⟩ <;> simp [Admitted]

/-- A chain of the grammar is in the subset when it is short enough if it is a
comparison, and its operators and operands are in the subset. -/
theorem inSubset_chain_iff {rule below : Rule} {first : Tree} {steps : List (Tree × Tree)}
    {span : Span} (hrule : (rule, below) ∈ Rule.chains) (hbelow : first.rule? = some below)
    (hoperators : ∀ step ∈ steps, step.1.IsOperatorOf rule)
    (hoperands : ∀ step ∈ steps, step.2.rule? = some below) :
    (node rule (first :: chainTail steps) span).InSubset ↔
      (rule = .comparison → steps.length ≤ 1) ∧ first.InSubset ∧
        ∀ step ∈ steps, step.1.tokenText ∈ rule.keptSpellings ∧ step.2.InSubset := by
  have hlength : (first :: chainTail steps).length ≤ 3 ↔ steps.length ≤ 1 := by
    rw [List.length_cons, length_chainTail]
    omega
  rw [inSubset_node_iff, admitted_chain_iff hrule, hlength,
    keepsOperators_chain_iff hrule hbelow hoperators hoperands, List.forall_mem_cons,
    forall_mem_chainTail]
  constructor
  · rintro ⟨⟨hshort, hkept⟩, hfirst, hsteps⟩
    exact ⟨hshort, hfirst, fun step hstep => ⟨hkept step hstep, (hsteps step hstep).2⟩⟩
  · rintro ⟨hshort, hfirst, hsteps⟩
    exact ⟨⟨hshort, fun step hstep => (hsteps step hstep).1⟩, hfirst,
      fun step hstep => ⟨(hoperators step hstep).isOperator.2, (hsteps step hstep).2⟩⟩

end Tree

end ScriptLowering
