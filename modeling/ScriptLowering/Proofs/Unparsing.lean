import ScriptLowering.Grammar.ExpressionForms
import ScriptLowering.Proofs.Acceptance
import ScriptLowering.Proofs.Lifting
import ScriptLowering.Proofs.TokenConservation

/-!
# Unparsing

Every expression in normal form is written by a tree of the grammar.  A literal
becomes an atom, a prefix operator a node with its sign or word, and the left
spine of connectives of one level a single flat chain; an operand that binds
tighter is lifted to its place.  Lowering the tree folds every chain back to the
spine that it came from.

Main results:

- Definition `Expr.unparse`: the tree of an expression.
- Theorem `Tree.ReadsAs.extendChain`: one more operator and operand at the end
  of a chain join one more operand to what it is read as.
- Theorem `Expr.lowerExpression_unparse`: the tree of a normal form is in the
  grammar and in the subset, and is lowered to the normal form up to spans.
-/

namespace ScriptLowering

/-! ## Trees of expressions -/

/-- The token that a literal with the given raw text is written as. -/
def LiteralValue.token (value : LiteralValue) (raw : String) : Token :=
  match value with
  | .integer _ => .number raw
  | .boolean _ => .keyword raw
  | .name _ => .name raw
  | .string _ => .string raw

/-- The rule that holds the operators of a binding level. -/
def Rule.ofBindingLevel (level : Nat) : Rule :=
  [.atom, .factor, .term, .arithExpr, .expr, .comparison, .notTest, .andTest].getD level .orTest

/-- A chain with one more operator and operand at its end.  A tree that is not a
chain of the rule becomes the first operand of one. -/
def Tree.extendChain (rule : Rule) (left : Tree) (operator : String) (right : Tree) : Tree :=
  if left.isNode rule then ofChildren rule (left.children ++ chainRest rule [(operator, right)])
  else chain rule left [(operator, right)]

/-- The tree of an expression: an atom, a prefix operator before its operand, or
a flat chain. -/
def Expr.unparse : Expr → Tree
  | .literal value raw _ => .atom (value.token raw)
  | .unary .not argument _ => .negation argument.unparse
  | .unary operator argument _ => .factor operator.spelling argument.unparse
  | .binary operator left right _ =>
    .extendChain (.ofBindingLevel operator.level) left.unparse operator.symbol right.unparse
  | .logical operator left right _ =>
    .extendChain (.ofBindingLevel operator.level) left.unparse operator.spelling right.unparse

/-- The rule of a connective is the one that holds the operators of its level. -/
def Connective.rule (connective : Connective) : Rule :=
  .ofBindingLevel connective.level

/-- Joined operands are written as a chain that is one operand longer. -/
theorem Expr.unparse_node (connective : Connective) (left right : Expr) (span : Span) :
    (connective.node left right span).unparse =
      .extendChain connective.rule left.unparse connective.spelling right.unparse := by
  cases connective <;> rfl

/-! ## Literals and their raw texts -/

/-- A raw text is a way to write a literal value. -/
def LiteralValue.IsWritten : LiteralValue → String → Prop
  | .integer value, raw => IntegerLiteral.Denotes raw value.toInt
  | .boolean value, raw => raw = if value then "True" else "False"
  | .name text, raw => raw = text
  | .string text, raw => raw = text

/-- The raw texts of all literals of an expression are ways to write them. -/
def Expr.IsWritten : Expr → Prop
  | .literal value raw _ => value.IsWritten raw
  | .unary _ argument _ => argument.IsWritten
  | .binary _ left right _ => left.IsWritten ∧ right.IsWritten
  | .logical _ left right _ => left.IsWritten ∧ right.IsWritten

theorem Expr.isWritten_node {connective : Connective} {left right : Expr} {span : Span} :
    (connective.node left right span).IsWritten ↔ left.IsWritten ∧ right.IsWritten := by
  cases connective <;> exact Iff.rfl

/-- A 64-bit integer that a text denotes is the value of the text. -/
theorem IntegerLiteral.value?_of_denotes {text : String} {value : Int64}
    (h : Denotes text value.toInt) : value? text = .ok value := by
  have hfits : Fits value.toInt := by
    have hlow := value.le_toInt
    have hhigh := value.toInt_lt
    unfold Fits maxValue
    omega
  exact value?_eq_ok_iff.mpr ⟨value.toInt, h, hfits, (Int64.ofInt_toInt value).symm⟩

/-- The token of a literal has the value of the literal. -/
theorem LiteralValue.IsWritten.value?_token {value : LiteralValue} {raw : String}
    (h : value.IsWritten raw) : (value.token raw).value? = some value := by
  cases value with
  | integer value =>
      have hvalue : IntegerLiteral.value? raw = .ok value :=
        IntegerLiteral.value?_of_denotes h
      simp [token, Token.number, Token.value?, hvalue, Except.toOption]
  | boolean value =>
      have hraw : raw = if value then "True" else "False" := h
      cases value <;> simp [token, Token.keyword, Token.value?, hraw]
  | name text =>
      have hraw : raw = text := h
      simp [token, Token.name, Token.value?, hraw]
  | string text =>
      have hraw : raw = text := h
      simp [token, Token.string, Token.value?, hraw]

/-- The token of a literal is an atom of the grammar. -/
theorem LiteralValue.IsWritten.isAtom {value : LiteralValue} {raw : String}
    (h : value.IsWritten raw) : (value.token raw).IsAtom := by
  cases value with
  | boolean value =>
      have hraw : raw = if value then "True" else "False" := h
      cases value <;> simp [token, Token.keyword, Token.IsAtom, hraw]
  | _ => simp [token, Token.number, Token.name, Token.string, Token.IsAtom]

/-! ## Places on the ladder -/

/-- What binds tighter than a connective can be lifted to an operand of it. -/
theorem Connective.isUnder_operand (connective : Connective) :
    ∀ level < connective.level, (Rule.ofBindingLevel level).IsUnder connective.rule.operand := by
  cases connective with
  | binary operator => cases operator <;> decide
  | logical operator => cases operator <;> decide

/-- What binds no looser than a prefix operator can be lifted to an operand of
it. -/
theorem UnaryOperator.isUnder (operator : UnaryOperator) :
    ∀ level ≤ operator.level,
      (Rule.ofBindingLevel level).IsUnder (Rule.ofBindingLevel operator.level) := by
  cases operator <;> decide

/-- A tree that binds tighter than a connective is no chain of it. -/
theorem Connective.rule_ne (connective : Connective) :
    ∀ level < connective.level, Rule.ofBindingLevel level ≠ connective.rule := by
  cases connective with
  | binary operator => cases operator <;> decide
  | logical operator => cases operator <;> decide

/-- A connective that groups to the left is no comparison. -/
theorem Connective.rule_ne_comparison {connective : Connective}
    (h : connective.level ≤ connective.leftLevel) : connective.rule ≠ .comparison := by
  revert h
  cases connective with
  | binary operator => cases operator <;> decide
  | logical operator => cases operator <;> decide

/-- The rule of a connective keeps it. -/
theorem Connective.connective?_rule (connective : Connective) :
    connective.rule.connective? connective.spelling = some connective := by
  cases connective with
  | binary operator => cases operator <;> decide
  | logical operator => cases operator <;> decide

theorem Connective.mem_chains (connective : Connective) :
    (connective.rule, connective.rule.operand) ∈ Rule.chains := by
  cases connective with
  | binary operator => cases operator <;> decide
  | logical operator => cases operator <;> decide

/-! ## One more operand -/

section Chain

variable {rule : Rule} {step : ChainStep} {span : Span}

/-- One more operator and operand at the end of a chain join one more operand to
what it is lowered to.  A comparison has room for one operator only. -/
theorem Lowers.append_step {chain : Tree} {e : Expr} (hform : rule.form = .chain)
    (hroom : rule = .comparison → chain.children.length ≤ 1) (h : Lowers rule chain e)
    (hstep : step.Succeeds rule) :
    Lowers rule (.node rule (chain.children ++ step.children) span)
      (step.connective.apply e step.right) := by
  have hright := lowers_of_lowerAs hstep.right
  cases h with
  | inner hinner =>
      rw [hform] at hinner
      contradiction
  | @chain _ _ first _ left steps _ _ hfirst hlower hconnectives hoperands hrights =>
      have hchildren : (first :: steps.flatMap ChainStep.children) ++ step.children =
          first :: (steps ++ [step]).flatMap ChainStep.children := by simp
      have hjoined : step.connective.apply (left.joined (steps.map ChainStep.joins)) step.right =
          left.joined ((steps ++ [step]).map ChainStep.joins) := by
        simp [ChainStep.joins]
      have hlength : rule = .comparison → (steps ++ [step]).length ≤ 1 := by
        intro hcomparison
        have hone := hroom hcomparison
        rw [Tree.children_node, List.length_cons, ChainStep.length_flatMap_children] at hone
        rw [List.length_append, List.length_singleton]
        omega
      rw [Tree.children_node, hchildren, hjoined]
      refine .chain hform hlength hfirst hlower ?_ ?_ ?_
      · exact List.forall_mem_append.mpr
          ⟨hconnectives, List.forall_mem_singleton.mpr hstep.connective⟩
      · exact List.forall_mem_append.mpr ⟨hoperands, List.forall_mem_singleton.mpr hstep.operand⟩
      · exact List.forall_mem_append.mpr ⟨hrights, List.forall_mem_singleton.mpr hright⟩
  | negation hform' =>
      rw [hform] at hform'
      contradiction
  | sign hform' =>
      rw [hform] at hform'
      contradiction
  | atom hform' =>
      rw [hform] at hform'
      contradiction

/-- An operand alone is a chain. -/
theorem Lowers.single {first : Tree} {e : Expr} (hform : rule.form = .chain)
    (hfirst : first.rule? = some rule.operand) (h : Lowers rule.operand first e) :
    Lowers rule (.node rule [first] span) e := by
  apply lowers_of_lowerAs
  rw [lowerAs_chain_singleton hform hfirst]
  exact h.lowerAs_eq_ok

/-- A chain of the grammar stays one with one more operator and operand. -/
theorem Tree.Conforms.append_operand {below : Rule} {chain operator operand : Tree}
    (hrule : (rule, below) ∈ Rule.chains) (hchain : chain.rule? = some rule)
    (h : chain.Conforms) (hoperator : operator.IsOperatorOf rule)
    (hoperand : operand.rule? = some below) (hconforms : operand.Conforms) :
    (Tree.node rule (chain.children ++ [operator, operand]) span).Conforms := by
  obtain ⟨hform, hbelow⟩ := Rule.form_of_mem_chains hrule
  cases h with
  | @chain _ below' first steps _ hrule' hfirst hconforms' hoperators hoperands hrest =>
      obtain rfl := Option.some.inj hchain
      obtain rfl : below' = below := (Rule.form_of_mem_chains hrule').2.symm.trans hbelow
      have hchildren : (first :: chainTail steps) ++ [operator, operand] =
          first :: chainTail (steps ++ [(operator, operand)]) := by simp [chainTail]
      rw [children_node, hchildren]
      refine .chain hrule hfirst hconforms' ?_ ?_ ?_
      · exact List.forall_mem_append.mpr ⟨hoperators, List.forall_mem_singleton.mpr hoperator⟩
      · exact List.forall_mem_append.mpr ⟨hoperands, List.forall_mem_singleton.mpr hoperand⟩
      · exact List.forall_mem_append.mpr ⟨hrest, List.forall_mem_singleton.mpr hconforms⟩
  | list hlist =>
      obtain rfl := Option.some.inj hchain
      rcases hlist with rfl | rfl <;> exact absurd hform (by decide)
  | _ =>
      obtain rfl := Option.some.inj hchain
      exact absurd hform (by decide)

end Chain

/-! ## Trees that are read as an expression -/

/-- A tree of the grammar with the given rule that is lowered to an expression,
up to spans. -/
structure Tree.ReadsAs (rule : Rule) (tree : Tree) (e : Expr) : Prop where
  rule?_eq : tree.rule? = some rule
  conforms : tree.Conforms
  lowers : ∃ read, Lowers rule tree read ∧ read.eraseSpans = e.eraseSpans

namespace Tree.ReadsAs

/-- Lifting a tree changes nothing but the rule that it is read by. -/
theorem lift {rule target : Rule} {tree : Tree} {e : Expr} (h : tree.ReadsAs rule e)
    (hunder : rule.IsUnder target) : (tree.lift target).ReadsAs target e := by
  obtain ⟨read, hlowers, herase⟩ := h.lowers
  have hwithin : tree.BindsWithin target := ⟨rule, h.rule?_eq, hunder⟩
  exact ⟨hwithin.rule?_lift, h.conforms.lift target, read, hlowers.lift h.rule?_eq hunder, herase⟩

/-- The atom of a literal is read as the literal. -/
theorem atom {value : LiteralValue} {raw : String} {span : Span} (h : value.IsWritten raw) :
    (Tree.atom (value.token raw)).ReadsAs .atom (.literal value raw span) := by
  refine ⟨rfl, .atom h.isAtom, .literal value raw .unplaced, ?_, rfl⟩
  have hplace : Tree.atom (value.token raw) =
      .node .atom [.leaf (value.token raw)] .unplaced := by
    cases value <;> rfl
  have htext : (value.token raw).text = raw := by cases value <;> rfl
  have hlowers : Lowers .atom (.node .atom [.leaf (value.token raw)] .unplaced)
      (.literal value (value.token raw).text .unplaced) :=
    .atom rfl (lowerLiteral_eq_ok_iff.mpr h.value?_token)
  rwa [htext, ← hplace] at hlowers

/-- A negated operand is read as the negation of what the operand is read as. -/
theorem negation {operand : Tree} {argument : Expr} {span : Span}
    (h : (operand.lift .notTest).ReadsAs .notTest argument) :
    (Tree.negation operand).ReadsAs .notTest (.unary .not argument span) := by
  obtain ⟨read, hlowers, herase⟩ := h.lowers
  refine ⟨rfl, .negation rfl h.rule?_eq h.conforms, _,
    .negation rfl rfl h.rule?_eq hlowers, ?_⟩
  simp [herase]

/-- A sign before an operand is read as the sign of what the operand is read as. -/
theorem factor {operator : UnaryOperator} {operand : Tree} {argument : Expr} {span : Span}
    (hsign : sign? operator.spelling = some operator)
    (h : (operand.lift .factor).ReadsAs .factor argument) :
    (Tree.factor operator.spelling operand).ReadsAs .factor (.unary operator argument span) := by
  obtain ⟨read, hlowers, herase⟩ := h.lowers
  have htext : (Token.operator operator.spelling).text = operator.spelling := by
    cases operator <;> rfl
  refine ⟨rfl, .sign h.rule?_eq h.conforms, _,
    .sign rfl (htext.symm ▸ hsign) h.rule?_eq hlowers, ?_⟩
  simp [herase]

end Tree.ReadsAs

/-! ### Chains -/

/-- The operator of a chain that a connective is written as. -/
theorem Connective.chainOperator_eq (connective : Connective) :
    Tree.chainOperator connective.rule connective.spelling =
      .leaf (.operator connective.spelling) := by
  cases connective with
  | binary operator => cases operator <;> rfl
  | logical operator => cases operator <;> rfl

/-- The spelling of a connective is an operator of its chain. -/
theorem Connective.isOperatorOf (connective : Connective) :
    (Tree.leaf (.operator connective.spelling)).IsOperatorOf connective.rule := by
  cases connective with
  | binary operator => cases operator <;> exact .token nofun nofun
  | logical operator => cases operator <;> exact .token (by decide) (by decide)

/-- The spelling of a connective is lowered to the connective. -/
theorem Connective.lowerConnective_operator (connective : Connective) :
    lowerConnective connective.rule (.leaf (.operator connective.spelling)) = .ok connective := by
  have htext : (Token.operator connective.spelling).text = connective.spelling := by
    unfold Token.operator
    split <;> rfl
  refine lowerConnective_eq_ok_iff.mpr ⟨_, _, rfl, ?_⟩
  rw [htext]
  exact connective.connective?_rule

/-- An operator and an operand that follow in the chain of a connective. -/
def Connective.step (connective : Connective) (operand : Tree) (right : Expr) : ChainStep where
  operator := .leaf (.operator connective.spelling)
  operand := operand
  connective := connective
  right := right

namespace Tree.ReadsAs

variable {connective : Connective} {left operand : Tree} {l r : Expr} {span : Span}

/-- An operand alone is read as a chain. -/
theorem single (hleft : left.ReadsAs connective.rule.operand l) :
    (ofChildren connective.rule [left]).ReadsAs connective.rule l := by
  have hmem := connective.mem_chains
  obtain ⟨read, hlowers, herase⟩ := hleft.lowers
  refine ⟨rfl, .single hmem hleft.rule?_eq hleft.conforms, read, ?_, herase⟩
  exact hlowers.single (Rule.form_of_mem_chains hmem).1 hleft.rule?_eq

/-- A chain that goes on with a connective and an operand is read as the
connective between what the chain and the operand are read as. -/
theorem append_operand (hroom : connective.rule = .comparison → left.children.length ≤ 1)
    (hleft : left.ReadsAs connective.rule l)
    (hright : operand.ReadsAs connective.rule.operand r) :
    (ofChildren connective.rule
        (left.children ++ [.leaf (.operator connective.spelling), operand])).ReadsAs
      connective.rule (connective.node l r span) := by
  have hmem := connective.mem_chains
  obtain ⟨read, hlowers, herase⟩ := hleft.lowers
  obtain ⟨read', hlowers', herase'⟩ := hright.lowers
  have hstep : (connective.step operand read').Succeeds connective.rule :=
    ⟨connective.lowerConnective_operator, hright.rule?_eq, hlowers'.lowerAs_eq_ok⟩
  refine ⟨rfl, ?_, connective.apply read read', ?_, ?_⟩
  · exact hleft.conforms.append_operand hmem hleft.rule?_eq connective.isOperatorOf
      hright.rule?_eq hright.conforms
  · exact hlowers.append_step (Rule.form_of_mem_chains hmem).1 hroom hstep
  · rw [Expr.eraseSpans_apply, Expr.eraseSpans_node, herase, herase']

/-- A connective after a tree, and an operand after it, are read as the
connective between what the two are read as, when both bind tightly enough. -/
theorem extendChain {right : Tree} (hlevel : l.level ≤ connective.leftLevel)
    (hlevel' : r.level < connective.level) (hleft : left.ReadsAs (.ofBindingLevel l.level) l)
    (hright : right.ReadsAs (.ofBindingLevel r.level) r) :
    (Tree.extendChain connective.rule left connective.spelling right).ReadsAs connective.rule
      (connective.node l r span) := by
  have hlifted : (right.lift connective.rule.operand).ReadsAs _ r :=
    hright.lift (connective.isUnder_operand _ hlevel')
  have hrest : Tree.chainRest connective.rule [(connective.spelling, right)] =
      [.leaf (.operator connective.spelling), right.lift connective.rule.operand] := by
    simp [Tree.chainRest, connective.chainOperator_eq]
  unfold Tree.extendChain
  by_cases hown : l.level = connective.level
  · -- The tree on the left is a chain of the same rule, which goes on.
    have hchain : left.ReadsAs connective.rule l := by
      rw [Connective.rule, ← hown]
      exact hleft
    have hgroups := Connective.rule_ne_comparison (hown ▸ hlevel)
    rw [if_pos (Tree.isNode_iff.mpr hchain.rule?_eq), hrest]
    exact hchain.append_operand (fun hcomparison => absurd hcomparison hgroups) hlifted
  · -- The tree on the left binds tighter and starts a chain of its own.
    have hlow : l.level < connective.level := by
      have hbound := connective.leftLevel_le_level
      omega
    have hother : ¬ left.isNode connective.rule := by
      rw [Tree.isNode_iff, hleft.rule?_eq, Option.some.injEq]
      exact connective.rule_ne _ hlow
    have hsingle : (ofChildren connective.rule [left.lift connective.rule.operand]).ReadsAs _ l :=
      (hleft.lift (connective.isUnder_operand _ hlow)).single
    have hroom : connective.rule = .comparison →
        (ofChildren connective.rule [left.lift connective.rule.operand]).children.length ≤ 1 :=
      fun _ => Nat.le_refl 1
    rw [if_neg hother, Tree.chain, hrest]
    exact hsingle.append_operand hroom hlifted

end Tree.ReadsAs

/-! ## Unparsing and lowering -/

/-- The tree of a normal form is read as the normal form. -/
theorem Expr.readsAs_unparse {e : Expr} (hnormal : e.IsNormal) (hwritten : e.IsWritten) :
    e.unparse.ReadsAs (.ofBindingLevel e.level) e := by
  induction e using Expr.inductionOnConnectives with
  | literal value raw span => exact .atom hwritten
  | unary operator argument span ih =>
      obtain ⟨hlevel, hargument⟩ := hnormal
      have hlifted := (ih hargument hwritten).lift (operator.isUnder _ hlevel)
      cases operator with
      | not => exact .negation hlifted
      | plus => exact .factor rfl hlifted
      | minus => exact .factor rfl hlifted
  | node connective left right span ihleft ihright =>
      obtain ⟨hleft, hright, hnormalLeft, hnormalRight⟩ := isNormal_node.mp hnormal
      obtain ⟨hwrittenLeft, hwrittenRight⟩ := isWritten_node.mp hwritten
      rw [unparse_node, level_node]
      exact .extendChain hleft hright (ihleft hnormalLeft hwrittenLeft)
        (ihright hnormalRight hwrittenRight)

/-- Lowering undoes unparsing.  An expression in normal form whose literals are
written by their raw texts has a tree of the grammar.  All of the tree is in the
subset, so it has single literals, prefix operators, wrappers with one child and
flat chains only.  It is lowered to the expression up to spans. -/
theorem Expr.lowerExpression_unparse {e : Expr} (hnormal : e.IsNormal)
    (hwritten : e.IsWritten) :
    e.unparse.Conforms ∧ e.unparse.InSubset ∧
      ∃ read, lowerExpression e.unparse = .ok read ∧ read.eraseSpans = e.eraseSpans := by
  have hreads := e.readsAs_unparse hnormal hwritten
  obtain ⟨read, hlowers, herase⟩ := hreads.lowers
  have hlower : lowerExpression e.unparse = .ok read := by
    rw [lowerExpression_of_rule? hreads.rule?_eq]
    exact hlowers.lowerAs_eq_ok
  exact ⟨hreads.conforms, hreads.conforms.settles.exists_ok_iff.mp ⟨read, hlower⟩, read, hlower,
    herase⟩

/-- The expression `not a - 0x1F - b < s`: a negation over a comparison, whose
left operand is a spine of two differences. -/
def negatedComparison : Expr :=
  let difference := .ofBinary .subtract (.literal (.name "a") "a" .unplaced)
    (.literal (.integer 31) "0x1F" .unplaced)
  .unary .not
    (.ofBinary .less
      (.ofBinary .subtract difference (.literal (.name "b") "b" .unplaced))
      (.literal (.name "s") "s" .unplaced))
    .unplaced

/-- The spine is written as one flat chain, which is folded back to it. -/
theorem lowerExpression_unparse_negatedComparison :
    negatedComparison.IsNormal ∧ negatedComparison.IsWritten ∧
      negatedComparison.unparse.Conforms ∧ negatedComparison.unparse.InSubset ∧
      ∃ read, lowerExpression negatedComparison.unparse = .ok read ∧
        read.eraseSpans = negatedComparison.eraseSpans := by
  have hnormal : negatedComparison.IsNormal := by
    simp [negatedComparison, Expr.ofBinary, Expr.IsNormal, Expr.level, UnaryOperator.level,
      BinaryOperator.level, BinaryOperator.leftLevel, BinaryOperator.isComparison]
  have hdigits : List.Forall₂ (IntegerLiteral.IsDigit 16) ['1', 'F'] [1, 15] :=
    .cons ⟨by decide, Or.inl (by decide)⟩ (.cons ⟨by decide, Or.inr (by decide)⟩ .nil)
  have hrun : IntegerLiteral.Run 16 ['1', 'F'] 31 := ⟨nofun, [1, 15], hdigits, by decide⟩
  have hnumber : IntegerLiteral.Denotes "0x1F" 31 :=
    .marked (.hexadecimal (Or.inl rfl)) (by decide) (.plain hrun)
  have hwritten : negatedComparison.IsWritten := ⟨⟨⟨rfl, hnumber⟩, rfl⟩, rfl⟩
  exact ⟨hnormal, hwritten, Expr.lowerExpression_unparse hnormal hwritten⟩

end ScriptLowering
