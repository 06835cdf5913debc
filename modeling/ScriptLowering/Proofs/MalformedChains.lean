import ScriptLowering.Grammar.ExpressionForms
import ScriptLowering.Grammar.Layout
import ScriptLowering.Proofs.Lifting

/-!
# Chains with an operator or an operand too few

A chain has an operand after every operator, so it has an odd number of children.
One with an even number is a mismatch of the grammar, on every level of the ladder
and however long it is, with one exception: a comparison is refused for its length
before anything else is looked at, also when the last operand is missing.

Nothing that has been read before a malformed chain can hide it.  Lowering stops at
the first error in reading order, so the error of a part that is reached is the
error of everything around it.

Main results:

- Theorem `Tree.IsReachedIn.lowerExpression_eq_error`: the error of a part that
  lowering reaches is the error of the whole tree.
- Theorem `lowerExpression_evenChain`: what lowering stops with at an even chain.
- Theorem `danglingComparison_isRefused`: a comparison of two operands that is
  refused as a chained one, since it ends with an operator.
- Theorem `evenChain_isMismatch_iff`: an even chain that is reached is a mismatch at
  its own span, unless it is a comparison of more than three children.
-/

namespace ScriptLowering

/-! ## Parts that lowering reaches -/

/-- Lowering a tree reaches a part of it: the part is the whole tree, or it is
reached in a child that lowering comes to after it has lowered everything before. -/
inductive Tree.IsReachedIn (part : Tree) : Tree → Prop
  | refl : IsReachedIn part part
  | inner {rule below : Rule} {child : Tree} {span : Span}
      (hinner : rule.form.inner? = some below) (hbelow : child.rule? = some below)
      (hpart : part.IsReachedIn child) : IsReachedIn part (.node rule [child] span)
  /-- The first operand of a chain that is well-formed. -/
  | first {rule : Rule} {operand : Tree} {rest : List Tree} {span : Span}
      (hform : rule.form = .chain) (heven : rest.length % 2 = 0)
      (hshort : rule = .comparison → rest.length ≤ 2) (hoperand : operand.rule? = some rule.operand)
      (hpart : part.IsReachedIn operand) : IsReachedIn part (.node rule (operand :: rest) span)
  /-- A further operand of a chain that is well-formed; the steps before it succeed. -/
  | further {rule : Rule} {first operator operand : Tree} {left : Expr} {connective : Connective}
      {steps : List ChainStep} {rest : List Tree} {span : Span} (hform : rule.form = .chain)
      (heven : rest.length % 2 = 0) (hshort : rule = .comparison → steps = [] ∧ rest = [])
      (hfirst : first.rule? = some rule.operand) (hleft : lowerExpression first = .ok left)
      (hsteps : ∀ step ∈ steps, step.Succeeds rule)
      (hconnective : lowerConnective rule operator = .ok connective)
      (hoperand : operand.rule? = some rule.operand) (hpart : part.IsReachedIn operand) :
      IsReachedIn part
        (.node rule (first :: (steps.flatMap ChainStep.children ++ operator :: operand :: rest))
          span)
  | negation {word : Token} {operand : Tree} {span : Span} (hword : word.is .keyword "not")
      (hoperand : operand.rule? = some .notTest) (hpart : part.IsReachedIn operand) :
      IsReachedIn part (.node .notTest [.leaf word, operand] span)
  | sign {sign : Token} {operator : UnaryOperator} {operand : Tree} {span : Span}
      (hsign : sign? sign.text = some operator) (hoperand : operand.rule? = some .factor)
      (hpart : part.IsReachedIn operand) :
      IsReachedIn part (.node .factor [.leaf sign, operand] span)

namespace Tree

/-- The error of a part that lowering reaches is the error of the whole tree. -/
theorem IsReachedIn.lowerExpression_eq_error {part tree : Tree} {error : LoweringError}
    (h : part.IsReachedIn tree) (hpart : lowerExpression part = .error error) :
    lowerExpression tree = .error error := by
  induction h with
  | refl => exact hpart
  | inner hinner hbelow _ ih =>
      rw [lowerExpression_of_rule? (rule?_node ..), lowerAs_inner hinner hbelow,
        ← lowerExpression_of_rule? hbelow, ih]
  | first hform heven hshort hoperand _ ih =>
      rw [lowerExpression_of_rule? hoperand] at ih
      rw [lowerExpression_of_rule? (rule?_node ..), lowerAs_chain hform heven hshort hoperand, ih]
      rfl
  | @further rule first operator operand left connective steps rest span hform heven hshort hfirst
      hleft hsteps hconnective hoperand _ ih =>
      rw [lowerExpression_of_rule? hfirst] at hleft
      rw [lowerExpression_of_rule? hoperand] at ih
      have hrest : (operator :: operand :: rest).length % 2 = 0 := by
        rw [List.length_cons, List.length_cons]
        omega
      have hcomparison : rule = .comparison →
          2 * steps.length + (operator :: operand :: rest).length ≤ 2 := by
        intro hrule
        rcases hshort hrule with ⟨rfl, rfl⟩
        simp
      have hcomes : ComesTo rule
          (.node rule
            (first :: (steps.flatMap ChainStep.children ++ operator :: operand :: rest)) span)
          (operator :: operand :: rest) :=
        .intro hform hrest hcomparison hfirst hleft hsteps
      rw [lowerExpression_of_rule? (rule?_node ..)]
      exact hcomes.lowerAs_eq_error
        (lowerStep_eq_error_iff.mpr (Or.inr ⟨connective, hconnective, Or.inr ⟨hoperand, ih⟩⟩))
  | negation hword hoperand _ ih =>
      rw [lowerExpression_of_rule? hoperand] at ih
      rw [lowerExpression_of_rule? (rule?_node ..), lowerAs_negation rfl hword hoperand, ih]
      rfl
  | sign hsign hoperand _ ih =>
      rw [lowerExpression_of_rule? hoperand] at ih
      rw [lowerExpression_of_rule? (rule?_node ..), lowerAs_sign rfl hsign hoperand, ih]
      rfl

/-- What lowering reaches in a tree, it reaches in the lifted tree. -/
theorem IsReachedIn.lift {part tree : Tree} (h : part.IsReachedIn tree) (target : Rule) :
    part.IsReachedIn (tree.lift target) := by
  refine lift_induction (fun {below above lifted} hbelow hrule ih => ?_) h target
  rcases hbelow.operand_or_inner? with ⟨hform, rfl⟩ | hinner
  · exact .first hform rfl (fun _ => Nat.zero_le _) hrule ih
  · exact .inner hinner hrule ih

/-! ## Even chains -/

/-- A node of operands and operators with one of them too few: an `or_test`,
`and_test`, `comparison`, `expr`, `xor_expr`, `and_expr`, `shift_expr`, `arith_expr` or
`term` with an even number of children. -/
structure IsEvenChain (tree : Tree) : Prop where
  chain : ∃ rule ∈ tree.rule?, rule.form = .chain
  even : tree.children.length % 2 = 0

/-- A comparison with more children than an operator between two operands. -/
def IsLongComparison (tree : Tree) : Prop :=
  tree.rule? = some .comparison ∧ 3 < tree.children.length

instance (tree : Tree) : Decidable tree.IsLongComparison :=
  inferInstanceAs (Decidable (_ ∧ _))

end Tree

/-- What lowering stops with at an even chain: a comparison is refused for its length
first. -/
theorem lowerExpression_evenChain {chain : Tree} (h : chain.IsEvenChain) :
    lowerExpression chain =
      if chain.IsLongComparison then refuse .chainedComparisons chain.span
      else mismatch chain "an odd-length operand/operator chain" := by
  obtain ⟨⟨rule, hrule, hform⟩, heven⟩ := h
  cases chain with
  | leaf token => contradiction
  | node own children span =>
      obtain rfl : own = rule := Option.some.inj hrule
      by_cases hlong : (Tree.node own children span).IsLongComparison
      · rw [if_pos hlong]
        have hown : own = .comparison := Option.some.inj hlong.1
        subst hown
        exact (Exit.longComparison rfl hlong.2).lowerExpression_eq_error
      · rw [if_neg hlong]
        have hshort : own = .comparison → children.length ≤ 3 :=
          fun hown => Nat.le_of_not_lt fun hlength => hlong ⟨congrArg some hown, hlength⟩
        exact (Exit.evenChain hform hshort heven).lowerExpression_eq_error

/-- A comparison of two operands with an operator behind them, `a < b <`. -/
def danglingComparison : Tree :=
  .ofChildren .comparison
    [ (Tree.identifier "a").lift .expr, .leaf (.operator "<"),
      (Tree.identifier "b").lift .expr, .leaf (.operator "<")]

/-- A comparison that misses its last operand is an even chain and no mismatch. -/
theorem danglingComparison_isRefused :
    danglingComparison.layout.source = "a < b <" ∧ danglingComparison.layout.root.IsEvenChain ∧
      lowerExpression danglingComparison.layout.root = refuse .chainedComparisons ⟨0, 7⟩ ∧
      ¬ ∃ failure : ParseFailure,
        lowerExpression danglingComparison.layout.root = .error (.parse failure) := by
  have hrefused :
      lowerExpression danglingComparison.layout.root = refuse .chainedComparisons ⟨0, 7⟩ := rfl
  refine ⟨by decide, ⟨⟨.comparison, rfl, rfl⟩, by decide⟩, hrefused, ?_⟩
  rintro ⟨failure, hfailure⟩
  rw [hrefused] at hfailure
  cases hfailure

/-- An even chain that lowering reaches is never lowered.  It is a mismatch of the
grammar at its own span, unless it is a comparison of more than three children; such a
comparison is refused as a chained one, whatever its operands are. -/
theorem evenChain_isMismatch_iff {chain tree : Tree} (hchain : chain.IsEvenChain)
    (hreached : chain.IsReachedIn tree) :
    (lowerExpression tree = mismatch chain "an odd-length operand/operator chain" ↔
        ¬ chain.IsLongComparison) ∧
      (lowerExpression tree = refuse .chainedComparisons chain.span ↔ chain.IsLongComparison) ∧
      ∀ e, lowerExpression tree ≠ .ok e := by
  have hchainError := lowerExpression_evenChain hchain
  by_cases hlong : chain.IsLongComparison
  · rw [if_pos hlong] at hchainError
    have htree := hreached.lowerExpression_eq_error hchainError
    rw [htree]
    exact ⟨⟨nofun, fun hshort => absurd hlong hshort⟩, ⟨fun _ => hlong, fun _ => rfl⟩, nofun⟩
  · rw [if_neg hlong] at hchainError
    have htree := hreached.lowerExpression_eq_error hchainError
    rw [htree]
    exact ⟨⟨fun _ => hlong, fun _ => rfl⟩, ⟨nofun, fun h => absurd h hlong⟩, nofun⟩

/-- A sum without its last operand, `a +`. -/
def danglingSum : Tree :=
  .ofChildren .arithExpr [(Tree.identifier "a").lift .term, .leaf (.operator "+")]

/-- The sum as the second operand of a comparison that is negated, `not b < a +`. -/
def negatedDanglingSum : Tree :=
  .negation (.chain .comparison (.identifier "b") [("<", danglingSum)])

/-- The operand that is missing in the sum is the error of the whole negation. -/
theorem evenChain_isMismatch_iff_danglingSum :
    danglingSum.IsEvenChain ∧ danglingSum.IsReachedIn negatedDanglingSum ∧
      lowerExpression negatedDanglingSum =
        mismatch danglingSum "an odd-length operand/operator chain" := by
  have hchain : danglingSum.IsEvenChain := ⟨⟨.arithExpr, rfl, rfl⟩, by decide⟩
  -- No step stands between the first operand and the one that is reached.
  have hsteps : ∀ step ∈ ([] : List ChainStep), step.Succeeds .comparison := by simp
  have hcomparison :
      danglingSum.IsReachedIn (.chain .comparison (.identifier "b") [("<", danglingSum)]) :=
    .further rfl rfl (fun _ => ⟨rfl, rfl⟩) rfl (lowerExpression_lift _ _) hsteps rfl rfl
      (Tree.IsReachedIn.refl.lift .expr)
  have hreached : danglingSum.IsReachedIn negatedDanglingSum :=
    .negation rfl rfl (hcomparison.lift .notTest)
  exact ⟨hchain, hreached, (evenChain_isMismatch_iff hchain hreached).1.mpr (by decide)⟩

end ScriptLowering
