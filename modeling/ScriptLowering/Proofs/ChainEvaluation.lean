import Mathlib.Data.List.Forall2
import ScriptLowering.Grammar.ExpressionForms
import ScriptLowering.Proofs.Acceptance
import ScriptLowering.Proofs.Lifting

/-!
# Chains from left to right

A chain is built from a first operand and any number of operators with an operand
after each; an operand that binds tighter than its place requires is lifted to it,
through as many levels as are missing.  Lowering the chain evaluates it by hand: the
operands are lowered by themselves, each is joined to everything before it, and the
first operator that is not kept or the first operand that fails is where it ends.

Main results:

- Definition `Rule.evaluateChain`: the evaluation of a chain from left to right.
- Theorem `lowerRest_chainRest`: the fold over the children of a chain is the
  evaluation of its operators and operands.
- Theorem `exists_steps_of_foldlM`: an evaluation that ends well has joined every
  operand, from left to right.
- Theorem `Expr.covers_joined`: joined operands stand from their first start to their
  last stop.
- Theorem `chain_evaluatesLeftToRight`: lowering a chain is its evaluation.
-/

namespace ScriptLowering

/-! ## Evaluation by hand -/

namespace Rule

/-- Joins one more operand to what stands before it.  The operator is looked at
first: the operand after one that the rule does not keep is never lowered. -/
def evaluateNext (rule : Rule) (left : Expr) (step : String × Tree) : Lowered Expr :=
  match rule.connective? step.1 with
  | some connective => do
    let right ← lowerExpression step.2
    return connective.apply left right
  | none => refuse (.operator step.1) .unplaced

/-- The operands of a chain, each lowered by itself and joined to everything before
it, up to the first error. -/
def evaluateChain (rule : Rule) (first : Tree) (rest : List (String × Tree)) : Lowered Expr := do
  let left ← lowerExpression first
  rest.foldlM rule.evaluateNext left

/-- What an operator and the operand after it contribute to a chain: a connective
that the rule keeps under that spelling, and the operand lowered by itself. -/
structure Contributes (rule : Rule) (step : String × Tree) (joins : Connective × Expr) : Prop where
  mem_connectives : joins.1 ∈ rule.connectives
  spelling_eq : joins.1.spelling = step.1
  operand_eq : lowerExpression step.2 = .ok joins.2

variable {rule : Rule} {left e : Expr} {step : String × Tree} {rest : List (String × Tree)}

/-- A step of the evaluation that succeeds joins what its operator and operand contribute. -/
theorem evaluateNext_eq_ok (h : rule.evaluateNext left step = .ok e) :
    ∃ joins, rule.Contributes step joins ∧ e = joins.1.apply left joins.2 := by
  unfold evaluateNext at h
  split at h
  · rename_i connective hconnective
    obtain ⟨hmem, hspelling⟩ := connective?_eq_some hconnective
    obtain ⟨right, hright, hvalue⟩ := Lowered.bind_eq_ok.mp h
    exact ⟨(connective, right), ⟨hmem, hspelling, hright⟩, (Except.ok.inj hvalue).symm⟩
  · exact absurd h (refuse_ne_ok _ _ _)

/-- An evaluation that ends well has joined every operand, from left to right. -/
theorem exists_steps_of_foldlM (h : rest.foldlM rule.evaluateNext left = .ok e) :
    ∃ steps, List.Forall₂ rule.Contributes rest steps ∧ e = left.joined steps := by
  induction rest generalizing left with
  | nil => exact ⟨[], .nil, (Except.ok.inj h).symm⟩
  | cons step rest ih =>
      rw [List.foldlM_cons] at h
      obtain ⟨next, hnext, hrest⟩ := Lowered.bind_eq_ok.mp h
      obtain ⟨joins, hjoins, rfl⟩ := evaluateNext_eq_ok hnext
      obtain ⟨steps, hsteps, rfl⟩ := ih hrest
      exact ⟨joins :: steps, .cons hjoins hsteps, rfl⟩

/-- What ends an evaluation early ends every longer one that begins in the same
way. -/
theorem evaluateChain_append {first : Tree} {taken : List (String × Tree)} {error : LoweringError}
    (h : rule.evaluateChain first taken = .error error) (dropped : List (String × Tree)) :
    rule.evaluateChain first (taken ++ dropped) = .error error := by
  unfold evaluateChain at h ⊢
  simp only [List.foldlM_append]
  rw [← bind_assoc, h]
  rfl

end Rule

/-! ## The place of joined operands -/

/-- A span covers some spans and no more: it starts where the first of them starts,
and it stops where the last of them stops. -/
structure Span.Covers (span : Span) (spans : List Span) : Prop where
  start_mem : span.start ∈ spans.map Span.start
  start_le : ∀ other ∈ spans, span.start ≤ other.start
  stop_mem : span.stop ∈ spans.map Span.stop
  le_stop : ∀ other ∈ spans, other.stop ≤ span.stop

namespace Span

/-- A merged span starts no later than either of the two. -/
theorem merge_start_le (a b : Span) :
    (a.merge b).start ≤ a.start ∧ (a.merge b).start ≤ b.start := by
  rw [UInt32.le_iff_toNat_le, UInt32.le_iff_toNat_le, toNat_merge_start]
  exact ⟨Nat.min_le_left _ _, Nat.min_le_right _ _⟩

theorem le_merge_stop (a b : Span) :
    a.stop ≤ (a.merge b).stop ∧ b.stop ≤ (a.merge b).stop := by
  rw [UInt32.le_iff_toNat_le, UInt32.le_iff_toNat_le, toNat_merge_stop]
  exact ⟨Nat.le_max_left _ _, Nat.le_max_right _ _⟩

/-- A span covers itself and no more. -/
theorem Covers.singleton (span : Span) : span.Covers [span] where
  start_mem := List.mem_singleton_self span.start
  start_le := List.forall_mem_singleton.mpr (UInt32.le_refl span.start)
  stop_mem := List.mem_singleton_self span.stop
  le_stop := List.forall_mem_singleton.mpr (UInt32.le_refl span.stop)

/-- One more span is covered by merging it. -/
theorem Covers.merge {span : Span} {spans : List Span} (h : span.Covers spans) (next : Span) :
    (span.merge next).Covers (spans ++ [next]) := by
  obtain ⟨hstart, hstart'⟩ := merge_start_le span next
  obtain ⟨hstop, hstop'⟩ := le_merge_stop span next
  constructor
  · have hchoice : (span.merge next).start = span.start ∨ (span.merge next).start = next.start :=
      ite_eq_or_eq _ _ _
    rw [List.map_append, List.map_singleton, List.mem_append, List.mem_singleton]
    refine hchoice.imp_left fun heq => ?_
    rw [heq]
    exact h.start_mem
  · refine List.forall_mem_append.mpr ⟨fun other hother => ?_, ?_⟩
    · exact UInt32.le_trans hstart (h.start_le other hother)
    · exact List.forall_mem_singleton.mpr hstart'
  · have hchoice : (span.merge next).stop = next.stop ∨ (span.merge next).stop = span.stop :=
      ite_eq_or_eq _ _ _
    rw [List.map_append, List.map_singleton, List.mem_append, List.mem_singleton]
    refine hchoice.symm.imp_left fun heq => ?_
    rw [heq]
    exact h.stop_mem
  · refine List.forall_mem_append.mpr ⟨fun other hother => ?_, ?_⟩
    · exact UInt32.le_trans (h.le_stop other hother) hstop
    · exact List.forall_mem_singleton.mpr hstop'

end Span

/-- Joined operands stand from their first start to their last stop. -/
theorem Expr.covers_joined {left : Expr} {spans : List Span} (h : left.span.Covers spans)
    (steps : List (Connective × Expr)) :
    (left.joined steps).span.Covers (spans ++ steps.map fun step => step.2.span) := by
  induction steps generalizing left spans with
  | nil => simpa using h
  | cons step steps ih =>
      have hjoined : (step.1.apply left step.2).span.Covers (spans ++ [step.2.span]) := by
        rw [Connective.span_apply]
        exact h.merge step.2.span
      have hrest := ih hjoined
      rwa [List.append_assoc] at hrest

/-! ## Lowering a chain -/

section Chain

variable {rule : Rule} {rest : List (String × Tree)}

/-- An operand that was lifted to its place is lowered as it is lowered by itself. -/
theorem lowerAs_lift {tree : Tree} (h : tree.BindsWithin rule) :
    lowerAs rule (tree.lift rule) = lowerExpression tree := by
  rw [← lowerExpression_of_rule? h.rule?_lift, lowerExpression_lift]

/-- Outside of comparisons the operator of a chain is a token with its text. -/
theorem operatorText_chainOperator (hmany : rule ≠ .comparison) (operator : String) :
    operatorText (Tree.chainOperator rule operator) = .ok (operator, .unplaced) := by
  have htoken : (Token.operator operator).text = operator ∧
      (Token.operator operator).span = .unplaced := by
    unfold Token.operator
    split <;> exact ⟨rfl, rfl⟩
  have hrule : (rule == .comparison) = false := beq_false_of_ne hmany
  unfold Tree.chainOperator
  rw [hrule, Bool.false_and, if_neg Bool.false_ne_true, operatorText, htoken.1, htoken.2]

theorem Tree.chainRest_cons (rule : Rule) (step : String × Tree) (rest : List (String × Tree)) :
    chainRest rule (step :: rest) =
      chainOperator rule step.1 :: step.2.lift rule.operand :: chainRest rule rest :=
  rfl

theorem Tree.length_chainRest (rule : Rule) (rest : List (String × Tree)) :
    (chainRest rule rest).length = 2 * rest.length := by
  induction rest with
  | nil => rfl
  | cons step rest ih =>
      rw [chainRest_cons, List.length_cons, List.length_cons, ih, List.length_cons]
      omega

/-- The fold over the children of a chain is the evaluation of its operators and
operands. -/
theorem lowerRest_chainRest (hmany : rule ≠ .comparison)
    (hrest : ∀ step ∈ rest, step.2.BindsWithin rule.operand) (chain : Tree) (left : Expr) :
    lowerRest rule chain left (Tree.chainRest rule rest) =
      rest.foldlM rule.evaluateNext left := by
  induction rest generalizing left with
  | nil =>
      rw [Tree.chainRest, List.flatMap_nil, lowerRest, List.foldlM_nil]
      rfl
  | cons step rest ih =>
      obtain ⟨hstep, hothers⟩ := List.forall_mem_cons.mp hrest
      have hcheck : checkOperand rule.operand chain (step.2.lift rule.operand) = .ok () :=
        checkOperand_eq_ok_iff.mpr hstep.rule?_lift
      have hoperator := operatorText_chainOperator hmany step.1
      rw [Tree.chainRest_cons, lowerRest, List.foldlM_cons, hcheck, lowerAs_lift hstep]
      unfold lowerConnective Rule.evaluateNext
      rw [hoperator]
      cases hconnective : rule.connective? step.1 with
      | none =>
          simp only [bind, Except.bind, hconnective]
          rfl
      | some connective =>
          cases hright : lowerExpression step.2 with
          | error error =>
              simp only [bind, Except.bind, hconnective]
              rfl
          | ok right =>
              simp only [bind, Except.bind, hconnective, pure, Except.pure]
              exact ih hothers (connective.apply left right)

/-- Lowering a chain is its evaluation from left to right. -/
theorem lowerExpression_chain {below : Rule} {first : Tree} (hrule : (rule, below) ∈ Rule.chains)
    (hmany : rule ≠ .comparison) (hfirst : first.BindsWithin below)
    (hrest : ∀ step ∈ rest, step.2.BindsWithin below) :
    lowerExpression (.chain rule first rest) = rule.evaluateChain first rest := by
  obtain ⟨hform, rfl⟩ := Rule.form_of_mem_chains hrule
  have hlength := Tree.length_chainRest rule rest
  rw [Tree.chain, lowerExpression_of_rule? (Tree.rule?_ofChildren _ _), Tree.ofChildren,
    lowerAs_chain hform (by omega) (fun hcomparison => absurd hcomparison hmany)
      hfirst.rule?_lift, lowerAs_lift hfirst, Rule.evaluateChain]
  exact congrArg _ (funext fun left => lowerRest_chainRest hmany hrest _ left)

end Chain

/-! ## What a chain is lowered to -/

/-- The chain of a first operand and of operators with an operand after each is
evaluated from left to right: lowering it gives what the evaluation by hand gives, be
it a result or an error.  A result has one connective for every operator, nested to
the left, and stands from the first start to the last stop of the lowered operands.
An error in a beginning of the chain is the error of the chain. -/
structure EvaluatesLeftToRight (rule : Rule) (first : Tree) (rest : List (String × Tree)) :
    Prop where
  keeps (operator : String) : (rule.connective? operator).isSome ↔ operator ∈ rule.keptSpellings
  evaluated : lowerExpression (.chain rule first rest) = rule.evaluateChain first rest
  joined {e : Expr} (h : lowerExpression (.chain rule first rest) = .ok e) :
    ∃ left steps, lowerExpression first = .ok left ∧
      List.Forall₂ rule.Contributes rest steps ∧ e = left.joined steps ∧
      e.span.Covers (left.span :: steps.map fun step => step.2.span)
  stops {taken dropped : List (String × Tree)} {error : LoweringError}
    (hparts : rest = taken ++ dropped)
    (h : lowerExpression (.chain rule first taken) = .error error) :
    lowerExpression (.chain rule first rest) = .error error

/-- A chain of any rule but the comparison is evaluated from left to right when its
operands bind tightly enough. -/
theorem chain_evaluatesLeftToRight {rule below : Rule} {first : Tree}
    {rest : List (String × Tree)} (hrule : (rule, below) ∈ Rule.chains)
    (hmany : rule ≠ .comparison) (hfirst : first.BindsWithin below)
    (hrest : ∀ step ∈ rest, step.2.BindsWithin below) :
    EvaluatesLeftToRight rule first rest where
  keeps operator := by
    rw [Rule.keptSpellings_eq hrule, Rule.connective?, List.find?_isSome, List.mem_map]
    simp only [beq_iff_eq]
  evaluated := lowerExpression_chain hrule hmany hfirst hrest
  joined h := by
    rw [lowerExpression_chain hrule hmany hfirst hrest, Rule.evaluateChain] at h
    obtain ⟨left, hleft, hfold⟩ := Lowered.bind_eq_ok.mp h
    obtain ⟨steps, hsteps, rfl⟩ := Rule.exists_steps_of_foldlM hfold
    exact ⟨left, steps, hleft, hsteps, rfl, Expr.covers_joined (.singleton left.span) steps⟩
  stops := by
    rintro taken dropped error rfl h
    have htaken : ∀ step ∈ taken, step.2.BindsWithin below :=
      fun step hstep => hrest step (List.mem_append_left _ hstep)
    rw [lowerExpression_chain hrule hmany hfirst htaken] at h
    rw [lowerExpression_chain hrule hmany hfirst hrest]
    exact Rule.evaluateChain_append h dropped

/-- A name that stands somewhere. -/
def nameAt (text : String) (span : Span) : Tree :=
  .ofChildren .atom [.leaf ⟨.name, text, span⟩]

/-- Operands of three levels, out of order, and operators that are all kept. -/
def keptSteps : List (String × Tree) :=
  [ ("-", .chain .term (nameAt "b" ⟨1, 2⟩) [("*", nameAt "c" ⟨2, 3⟩)]),
    ("+", .ofChildren .factor
      [.leaf ⟨.operator, "-", ⟨7, 8⟩⟩, (nameAt "d" ⟨8, 9⟩).lift .factor])]

/-- The sum is evaluated from left to right.  It stops at an operator that is not
kept, whose operand could not be lowered either. -/
theorem chain_evaluatesLeftToRight_keptSteps :
    EvaluatesLeftToRight .arithExpr (nameAt "a" ⟨4, 5⟩) keptSteps ∧
      (lowerExpression (.chain .arithExpr (nameAt "a" ⟨4, 5⟩) keptSteps)).map
        (fun e => (e.display, e.span)) = .ok ("((a - (b * c)) + (-d))", ⟨1, 9⟩) ∧
      lowerExpression (.chain .arithExpr (nameAt "a" ⟨4, 5⟩)
        (keptSteps ++ [("@", .constant "None"), ("+", .ellipsis)])) =
          refuse (.operator "@") .unplaced :=
  have hrule : (Rule.arithExpr, Rule.term) ∈ Rule.chains := by decide
  ⟨chain_evaluatesLeftToRight hrule (by decide) (by decide) (by decide), by decide, by decide⟩

end ScriptLowering
