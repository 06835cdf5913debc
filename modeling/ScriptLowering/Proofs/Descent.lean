import ScriptLowering.Proofs.Connectives
import ScriptLowering.Proofs.Exits

/-!
# Derivations of the descent

Lowering an expression is a recursion over sixteen levels with an early exit at
every one of them.  A derivation records a run: which child a level hands over to,
or which operands and operators a chain folds.  A run that reaches the end gives an
expression, and one that stops gives the error of the first exit that it comes to.
What every result of lowering satisfies is then one induction with a case for each
form of the grammar, and so is what every error satisfies.

Main results:

- Theorem `Tree.inductionOnChildren`: what passes from the children of a node
  to the node holds of every tree.
- Theorem `lowerRest_eq_ok_iff`: the fold of a chain succeeds exactly when each
  of its steps does, and gives the operands joined from left to right.
- Theorem `lowerRest_eq_error_iff`: the fold of a chain fails exactly when one of
  its steps does, after others that succeed.
- Theorem `lowerAs_eq_ok_iff`: lowering succeeds exactly along a derivation.
- Theorem `lowerAs_eq_error_iff`: lowering fails exactly along a derivation that
  stops.
-/

namespace ScriptLowering

/-! ## Induction over trees -/

/-- What holds of every token, and of a node whenever it holds of all its
children, holds of every tree. -/
@[elab_as_elim]
theorem Tree.inductionOnChildren {motive : Tree → Prop}
    (leaf : ∀ token, motive (.leaf token))
    (node : ∀ rule children span, (∀ child ∈ children, motive child) →
      motive (.node rule children span))
    (tree : Tree) : motive tree := by
  refine @Tree.rec motive (fun trees => ∀ child ∈ trees, motive child) leaf node ?_ ?_ tree
  · intro child hchild
    contradiction
  · intro first rest hfirst hrest child hchild
    rcases List.mem_cons.mp hchild with rfl | hchild
    · exact hfirst
    · exact hrest child hchild

/-! ## Derivations -/

/-- One operator of a chain with the operand after it, and what they are
lowered to. -/
structure ChainStep where
  operator : Tree
  operand : Tree
  connective : Connective
  right : Expr

namespace ChainStep

/-- The children of a chain that a step stands for. -/
def children (step : ChainStep) : List Tree :=
  [step.operator, step.operand]

/-- What a step joins to the operands before it. -/
def joins (step : ChainStep) : Connective × Expr :=
  (step.connective, step.right)

end ChainStep

/-- `Lowers rule tree e` when the children of `tree`, read as those of `rule`,
are lowered to `e`. -/
inductive Lowers : Rule → Tree → Expr → Prop
  /-- A level with a single child hands over to the level below. -/
  | inner {rule below own : Rule} {child : Tree} {span : Span} {e : Expr}
      (hinner : rule.form.inner? = some below) (hbelow : child.rule? = some below)
      (hchild : Lowers below child e) :
      Lowers rule (.node own [child] span) e
  /-- A chain joins its operands; a comparison joins at most two. -/
  | chain {rule own : Rule} {first : Tree} {span : Span} {left : Expr}
      {steps : List ChainStep} (hform : rule.form = .chain)
      (hshort : rule = .comparison → steps.length ≤ 1)
      (hoperand : first.rule? = some rule.operand)
      (hfirst : Lowers rule.operand first left)
      (hconnectives : ∀ step ∈ steps, lowerConnective rule step.operator = .ok step.connective)
      (hoperands : ∀ step ∈ steps, step.operand.rule? = some rule.operand)
      (hrights : ∀ step ∈ steps, Lowers rule.operand step.operand step.right) :
      Lowers rule (.node own (first :: steps.flatMap ChainStep.children) span)
        (left.joined (steps.map ChainStep.joins))
  | negation {rule own : Rule} {word : Token} {operand : Tree} {span : Span} {argument : Expr}
      (hform : rule.form = .negation) (hword : word.is .keyword "not")
      (hoperand : operand.rule? = some .notTest) (hargument : Lowers .notTest operand argument) :
      Lowers rule (.node own [.leaf word, operand] span) (.unary .not argument span)
  | sign {rule own : Rule} {sign : Token} {operand : Tree} {span : Span} {argument : Expr}
      {operator : UnaryOperator} (hform : rule.form = .factor)
      (hsign : sign? sign.text = some operator)
      (hoperand : operand.rule? = some .factor) (hargument : Lowers .factor operand argument) :
      Lowers rule (.node own [.leaf sign, operand] span) (.unary operator argument span)
  | atom {rule own : Rule} {token : Token} {span : Span} {value : LiteralValue}
      (hform : rule.form = .atom)
      (hvalue : lowerLiteral (.node own [.leaf token] span) token = .ok value) :
      Lowers rule (.node own [.leaf token] span) (.literal value token.text span)

/-! ## The single steps of the descent -/

/-- An operand passes when it applies the rule that the chain prescribes. -/
theorem checkOperand_eq_ok_iff {rule : Rule} {chain operand : Tree} :
    checkOperand rule chain operand = .ok () ↔ operand.rule? = some rule := by
  unfold checkOperand
  split
  · rename_i own hown
    by_cases heq : own = rule
    · simp [hown, heq]
    · simp [hown, heq]
  · rename_i hnone
    simp [hnone]

/-- An operator is lowered exactly when its chain keeps a connective under its text. -/
theorem lowerConnective_eq_ok_iff {rule : Rule} {operator : Tree} {connective : Connective} :
    lowerConnective rule operator = .ok connective ↔
      ∃ text span, operatorText operator = .ok (text, span) ∧
        rule.connective? text = some connective := by
  unfold lowerConnective
  rw [Lowered.bind_eq_ok]
  constructor
  · rintro ⟨⟨text, span⟩, htext, h⟩
    dsimp only at h
    split at h
    · rename_i found hfound
      obtain rfl : found = connective := Except.ok.inj h
      exact ⟨text, span, htext, hfound⟩
    · simp at h
  · rintro ⟨text, span, htext, hfound⟩
    refine ⟨(text, span), htext, ?_⟩
    dsimp only
    rw [hfound]
    rfl

/-- The connective of a step is one that its chain keeps. -/
theorem mem_connectives_of_lowerConnective {rule : Rule} {operator : Tree}
    {connective : Connective} (h : lowerConnective rule operator = .ok connective) :
    connective ∈ rule.connectives := by
  rcases lowerConnective_eq_ok_iff.mp h with ⟨text, span, -, hfound⟩
  exact (Rule.connective?_eq_some hfound).1

/-! ## The fold of a chain -/

/-- A step of a chain of the given rule that succeeds. -/
structure ChainStep.Succeeds (rule : Rule) (step : ChainStep) : Prop where
  connective : lowerConnective rule step.operator = .ok step.connective
  operand : step.operand.rule? = some rule.operand
  right : lowerAs rule.operand step.operand = .ok step.right

/-- One step of the fold of a chain: the connective and the operand after it. -/
def lowerStep (rule : Rule) (chain operator operand : Tree) : Lowered (Connective × Expr) := do
  let connective ← lowerConnective rule operator
  checkOperand rule.operand chain operand
  let right ← lowerAs rule.operand operand
  return (connective, right)

/-- The fold of a chain joins what its first step gives, and goes on. -/
theorem lowerRest_cons (rule : Rule) (chain : Tree) (left : Expr) (operator operand : Tree)
    (rest : List Tree) :
    lowerRest rule chain left (operator :: operand :: rest) =
      (lowerStep rule chain operator operand >>= fun step =>
        lowerRest rule chain (step.1.apply left step.2) rest) := by
  rw [lowerRest, lowerStep]
  cases lowerConnective rule operator with
  | error error => rfl
  | ok connective =>
      cases checkOperand rule.operand chain operand with
      | error error => rfl
      | ok _ => cases lowerAs rule.operand operand <;> rfl

/-- A step gives what it joins exactly when it succeeds. -/
theorem lowerStep_eq_ok_iff {rule : Rule} {chain : Tree} {step : ChainStep} :
    lowerStep rule chain step.operator step.operand = .ok step.joins ↔ step.Succeeds rule := by
  unfold lowerStep
  rw [Lowered.bind_eq_ok]
  constructor
  · rintro ⟨connective, hconnective, h⟩
    rcases Lowered.bind_eq_ok.mp h with ⟨_, hoperand, h⟩
    rcases Lowered.bind_eq_ok.mp h with ⟨right, hright, h⟩
    rcases Prod.mk.inj (Except.ok.inj h) with ⟨rfl, rfl⟩
    exact ⟨hconnective, checkOperand_eq_ok_iff.mp hoperand, hright⟩
  · intro h
    refine ⟨step.connective, h.connective, ?_⟩
    rw [checkOperand_eq_ok_iff.mpr h.operand, h.right]
    rfl

/-- A step fails at its operator, at the rule of its operand, or in its operand. -/
theorem lowerStep_eq_error_iff {rule : Rule} {chain operator operand : Tree}
    {error : LoweringError} :
    lowerStep rule chain operator operand = .error error ↔
      lowerConnective rule operator = .error error ∨
        ∃ connective, lowerConnective rule operator = .ok connective ∧
          (checkOperand rule.operand chain operand = .error error ∨
            operand.rule? = some rule.operand ∧ lowerAs rule.operand operand = .error error) := by
  unfold lowerStep
  constructor
  · intro h
    rcases Lowered.bind_eq_error.mp h with hoperator | ⟨connective, hconnective, h⟩
    · exact Or.inl hoperator
    rcases Lowered.bind_eq_error.mp h with hcheck | ⟨_, hcheck, h⟩
    · exact Or.inr ⟨connective, hconnective, Or.inl hcheck⟩
    rcases Lowered.bind_eq_error.mp h with hright | ⟨_, _, h⟩
    · exact Or.inr ⟨connective, hconnective, Or.inr ⟨checkOperand_eq_ok_iff.mp hcheck, hright⟩⟩
    · contradiction
  · intro h
    rcases h with hoperator | ⟨connective, hconnective, hcheck | ⟨hrule, hright⟩⟩
    · rw [hoperator]
      rfl
    · rw [hconnective, hcheck]
      rfl
    · rw [hconnective, checkOperand_eq_ok_iff.mpr hrule, hright]
      rfl

/-- The fold of a chain goes on behind the steps that succeed. -/
theorem lowerRest_append {rule : Rule} {chain : Tree} {left : Expr} {steps : List ChainStep}
    (hsteps : ∀ step ∈ steps, step.Succeeds rule) (rest : List Tree) :
    lowerRest rule chain left (steps.flatMap ChainStep.children ++ rest) =
      lowerRest rule chain (left.joined (steps.map ChainStep.joins)) rest := by
  induction steps generalizing left with
  | nil => rfl
  | cons step steps ih =>
      have hstep : step.Succeeds rule := hsteps step List.mem_cons_self
      have hrest : ∀ other ∈ steps, other.Succeeds rule :=
        fun other hother => hsteps other (List.mem_cons_of_mem _ hother)
      have hjoins : lowerStep rule chain step.operator step.operand = .ok step.joins :=
        lowerStep_eq_ok_iff.mpr hstep
      rw [List.flatMap_cons, List.append_assoc, ChainStep.children, List.cons_append,
        List.cons_append, lowerRest_cons, hjoins]
      exact ih hrest

/-- The fold of steps that succeed joins their operands. -/
theorem lowerRest_of_succeeds {rule : Rule} {chain : Tree} {left : Expr}
    {steps : List ChainStep} (hsteps : ∀ step ∈ steps, step.Succeeds rule) :
    lowerRest rule chain left (steps.flatMap ChainStep.children) =
      .ok (left.joined (steps.map ChainStep.joins)) := by
  rw [← List.append_nil (steps.flatMap _), lowerRest_append hsteps, lowerRest]

/-- A fold that succeeds has gone through steps that succeed. -/
theorem exists_steps_of_lowerRest {rule : Rule} {chain : Tree} {e : Expr} :
    ∀ {left : Expr} {children : List Tree}, lowerRest rule chain left children = .ok e →
      ∃ steps : List ChainStep, children = steps.flatMap ChainStep.children ∧
        (∀ step ∈ steps, step.Succeeds rule) ∧
        e = left.joined (steps.map ChainStep.joins)
  | left, [], h => by
      rw [lowerRest] at h
      exact ⟨[], rfl, by simp, by simpa using h.symm⟩
  | left, [operator], h => by
      rw [lowerRest] at h
      simp at h
  | left, operator :: operand :: rest, h => by
      rw [lowerRest_cons] at h
      rcases Lowered.bind_eq_ok.mp h with ⟨⟨connective, right⟩, hjoins, h⟩
      rcases exists_steps_of_lowerRest h with ⟨steps, rfl, hsteps, rfl⟩
      have hstep : ChainStep.Succeeds rule ⟨operator, operand, connective, right⟩ :=
        lowerStep_eq_ok_iff.mp hjoins
      exact ⟨⟨operator, operand, connective, right⟩ :: steps, rfl,
        List.forall_mem_cons.mpr ⟨hstep, hsteps⟩, rfl⟩

/-- The fold of a chain succeeds exactly when all of its steps do, and joins
their operands from left to right. -/
theorem lowerRest_eq_ok_iff {rule : Rule} {chain : Tree} {left e : Expr} {children : List Tree} :
    lowerRest rule chain left children = .ok e ↔
      ∃ steps : List ChainStep, children = steps.flatMap ChainStep.children ∧
        (∀ step ∈ steps, step.Succeeds rule) ∧
        e = left.joined (steps.map ChainStep.joins) := by
  constructor
  · exact exists_steps_of_lowerRest
  · rintro ⟨steps, rfl, hsteps, rfl⟩
    exact lowerRest_of_succeeds hsteps

/-- A fold that fails has gone through steps that succeed, and then come to one that
fails. -/
theorem exists_steps_of_lowerRest_eq_error {rule : Rule} {chain : Tree} {error : LoweringError} :
    ∀ {left : Expr} {children : List Tree}, children.length % 2 = 0 →
      lowerRest rule chain left children = .error error →
      ∃ (steps : List ChainStep) (operator operand : Tree) (rest : List Tree),
        children = steps.flatMap ChainStep.children ++ operator :: operand :: rest ∧
        (∀ step ∈ steps, step.Succeeds rule) ∧
        lowerStep rule chain operator operand = .error error
  | left, [], _, h => by
      rw [lowerRest] at h
      contradiction
  -- An operator without an operand behind it would make the number of children odd.
  | left, [operator], heven, _ => by contradiction
  | left, operator :: operand :: rest, heven, h => by
      rw [lowerRest_cons, Lowered.bind_eq_error] at h
      rcases h with hfails | ⟨⟨connective, right⟩, hjoins, h⟩
      · exact ⟨[], operator, operand, rest, rfl, by simp, hfails⟩
      · rw [List.length_cons, List.length_cons] at heven
        obtain ⟨steps, other, other', rest', rfl, hsteps, hfails⟩ :=
          exists_steps_of_lowerRest_eq_error (by omega) h
        have hstep : ChainStep.Succeeds rule ⟨operator, operand, connective, right⟩ :=
          lowerStep_eq_ok_iff.mp hjoins
        exact ⟨⟨operator, operand, connective, right⟩ :: steps, other, other', rest', rfl,
          List.forall_mem_cons.mpr ⟨hstep, hsteps⟩, hfails⟩

/-- The fold of operators with an operand after each of them fails exactly when one of its
steps does, after others that succeed. -/
theorem lowerRest_eq_error_iff {rule : Rule} {chain : Tree} {left : Expr} {children : List Tree}
    {error : LoweringError} (heven : children.length % 2 = 0) :
    lowerRest rule chain left children = .error error ↔
      ∃ (steps : List ChainStep) (operator operand : Tree) (rest : List Tree),
        children = steps.flatMap ChainStep.children ++ operator :: operand :: rest ∧
        (∀ step ∈ steps, step.Succeeds rule) ∧
        lowerStep rule chain operator operand = .error error := by
  constructor
  · exact exists_steps_of_lowerRest_eq_error heven
  · rintro ⟨steps, operator, operand, rest, rfl, hsteps, hfails⟩
    rw [lowerRest_append hsteps, lowerRest_cons, hfails]
    rfl

/-- The steps of a chain have two children each. -/
theorem ChainStep.length_flatMap_children (steps : List ChainStep) :
    (steps.flatMap ChainStep.children).length = 2 * steps.length := by
  induction steps with
  | nil => rfl
  | cons step steps ih =>
      rw [List.flatMap_cons, List.length_append, ih]
      simp [ChainStep.children]
      omega

/-- A chain with an operand after every operator, and with a single one in a
comparison, is lowered by its first operand and the fold of what follows it. -/
theorem lowerAs_chain {rule own : Rule} {first : Tree} {rest : List Tree} {span : Span}
    (hform : rule.form = .chain) (heven : rest.length % 2 = 0)
    (hshort : rule = .comparison → rest.length ≤ 2) (hoperand : first.rule? = some rule.operand) :
    lowerAs rule (.node own (first :: rest) span) =
      (lowerAs rule.operand first >>= fun left =>
        lowerRest rule (.node own (first :: rest) span) left rest) := by
  rw [lowerAs_chain_eq hform heven hshort, checkOperand_eq_ok_iff.mpr hoperand]
  rfl

/-! ## Derivations and lowering -/

/-- Along a derivation lowering succeeds. -/
theorem Lowers.lowerAs_eq_ok {rule : Rule} {tree : Tree} {e : Expr} (h : Lowers rule tree e) :
    lowerAs rule tree = .ok e := by
  induction h with
  | inner hinner hbelow _ ih => rw [lowerAs_inner hinner hbelow, ih]
  | @chain _ _ _ _ _ steps hform hshort hoperand _ hconnectives hoperands _ ihfirst ihrights =>
      have hlength := ChainStep.length_flatMap_children steps
      have heven : (steps.flatMap ChainStep.children).length % 2 = 0 := by omega
      rw [lowerAs_chain hform heven (fun hrule => by have := hshort hrule; omega) hoperand, ihfirst]
      exact lowerRest_of_succeeds fun step hstep =>
        ⟨hconnectives step hstep, hoperands step hstep, ihrights step hstep⟩
  | negation hform hword hoperand _ ih =>
      rw [lowerAs_negation hform hword hoperand, ih]
      rfl
  | sign hform hsign hoperand _ ih =>
      rw [lowerAs_sign hform hsign hoperand, ih]
      rfl
  | atom hform hvalue =>
      rw [lowerAs_atom hform]
      simp [lowerAtom, hvalue, bind, Except.bind, pure, Except.pure]

/-- An atom that is lowered is a single token with a value. -/
theorem exists_token_of_lowerAtom {atom : Tree} {e : Expr} (h : lowerAtom atom = .ok e) :
    ∃ token value, atom.children = [.leaf token] ∧ lowerLiteral atom token = .ok value ∧
      e = .literal value token.text atom.span := by
  unfold lowerAtom at h
  split at h
  · rename_i token hchildren
    rcases Lowered.bind_eq_ok.mp h with ⟨value, hvalue, hresult⟩
    exact ⟨token, value, hchildren, hvalue, (Except.ok.inj hresult).symm⟩
  · split at h <;> simp at h
  · simp at h

/-- A successful run is a derivation. -/
theorem lowers_of_lowerAs {rule : Rule} {tree : Tree} {e : Expr}
    (h : lowerAs rule tree = .ok e) : Lowers rule tree e := by
  -- A level may hand over to any rule below, so the rule varies with the child.
  induction tree using Tree.inductionOnChildren generalizing rule e with
  | leaf token =>
      rw [lowerAs_leaf] at h
      contradiction
  | node own children span ih =>
      rcases descends_or_exit rule (.node own children span) children with hdescends | ⟨_, _, hexit⟩
      · cases hdescends with
        | inner hinner hbelow =>
            rw [lowerAs_inner hinner hbelow] at h
            exact .inner hinner hbelow (ih _ (by simp) h)
        | @chain first rest hform heven hshort =>
            rw [lowerAs_chain_eq hform heven hshort] at h
            rcases Lowered.bind_eq_ok.mp h with ⟨_, hoperand, h⟩
            rcases Lowered.bind_eq_ok.mp h with ⟨left, hleft, h⟩
            rcases lowerRest_eq_ok_iff.mp h with ⟨steps, rfl, hsteps, rfl⟩
            rw [ChainStep.length_flatMap_children] at hshort
            refine .chain hform (fun hrule => by have := hshort hrule; omega)
              (checkOperand_eq_ok_iff.mp hoperand) (ih first (by simp) hleft)
              (fun step hstep => (hsteps step hstep).connective)
              (fun step hstep => (hsteps step hstep).operand) fun step hstep => ?_
            have hchild : step.operand ∈ steps.flatMap ChainStep.children :=
              List.mem_flatMap.mpr ⟨step, hstep, by simp [ChainStep.children]⟩
            exact ih step.operand (List.mem_cons_of_mem first hchild) (hsteps step hstep).right
        | negation hform hword hoperand =>
            rw [lowerAs_negation hform hword hoperand] at h
            rcases Lowered.bind_eq_ok.mp h with ⟨argument, hargument, hresult⟩
            obtain rfl := Except.ok.inj hresult
            exact .negation hform hword hoperand (ih _ (by simp) hargument)
        | sign hform hsign hoperand =>
            rw [lowerAs_sign hform hsign hoperand] at h
            rcases Lowered.bind_eq_ok.mp h with ⟨argument, hargument, hresult⟩
            obtain rfl := Except.ok.inj hresult
            exact .sign hform hsign hoperand (ih _ (by simp) hargument)
        | atom hform =>
            rw [lowerAs_atom hform] at h
            rcases exists_token_of_lowerAtom h with ⟨token, value, hchildren, hvalue, rfl⟩
            obtain rfl : children = [.leaf token] := hchildren
            exact .atom hform hvalue
      · rw [hexit.lowerAs_eq_error] at h
        contradiction

/-- Lowering succeeds exactly along a derivation. -/
theorem lowerAs_eq_ok_iff {rule : Rule} {tree : Tree} {e : Expr} :
    lowerAs rule tree = .ok e ↔ Lowers rule tree e :=
  ⟨lowers_of_lowerAs, Lowers.lowerAs_eq_ok⟩

/-! ## Derivations that stop -/

/-- `ComesTo rule chain rest` when lowering a chain as `rule` has lowered its first operand
and folded some steps, and comes to the rest of its children. -/
inductive ComesTo (rule : Rule) : Tree → List Tree → Prop
  | intro {own : Rule} {first : Tree} {span : Span} {left : Expr} {steps : List ChainStep}
      {rest : List Tree} (hform : rule.form = .chain) (heven : rest.length % 2 = 0)
      (hshort : rule = .comparison → 2 * steps.length + rest.length ≤ 2)
      (hoperand : first.rule? = some rule.operand) (hfirst : lowerAs rule.operand first = .ok left)
      (hsteps : ∀ step ∈ steps, step.Succeeds rule) :
      ComesTo rule (.node own (first :: (steps.flatMap ChainStep.children ++ rest)) span) rest

/-- What a chain has come to is among its children. -/
theorem ComesTo.subset {rule : Rule} {chain : Tree} {rest : List Tree}
    (h : ComesTo rule chain rest) : rest ⊆ chain.children := by
  cases h with
  | intro => exact fun child hchild => List.mem_cons_of_mem _ (List.mem_append_right _ hchild)

/-- A chain that has come to its rest is lowered as its rest is folded. -/
theorem ComesTo.lowerAs_eq {rule : Rule} {chain : Tree} {rest : List Tree}
    (h : ComesTo rule chain rest) :
    ∃ left, lowerAs rule chain = lowerRest rule chain left rest := by
  cases h with
  | @intro own first span left steps rest hform heven hshort hoperand hfirst hsteps =>
      have hlength : (steps.flatMap ChainStep.children ++ rest).length =
          2 * steps.length + rest.length := by
        rw [List.length_append, ChainStep.length_flatMap_children]
      refine ⟨left.joined (steps.map ChainStep.joins), ?_⟩
      rw [lowerAs_chain hform (by omega) (fun hrule => hlength ▸ hshort hrule) hoperand, hfirst]
      exact lowerRest_append hsteps rest

/-- `Stops rule tree error` when lowering the children of `tree`, read as those of `rule`,
stops with an error. -/
inductive Stops : Rule → Tree → LoweringError → Prop
  /-- A token is no expression. -/
  | token {rule : Rule} (token : Token) :
      Stops rule (.leaf token) (.parse (.mismatch (.leaf token) "an expression"))
  /-- There is an exit before lowering goes down. -/
  | exit {rule own : Rule} {children : List Tree} {span : Span} {part : Tree} {fault : Fault}
      (hexit : Exit rule (.node own children span) children part fault) :
      Stops rule (.node own children span) (fault.errorAt part)
  | inner {rule below own : Rule} {child : Tree} {span : Span} {error : LoweringError}
      (hinner : rule.form.inner? = some below) (hbelow : child.rule? = some below)
      (hchild : Stops below child error) : Stops rule (.node own [child] span) error
  /-- The first operand of a chain does not apply the rule that the chain prescribes. -/
  | firstRule {rule own : Rule} {first : Tree} {rest : List Tree} {span : Span}
      {error : LoweringError} (hform : rule.form = .chain) (heven : rest.length % 2 = 0)
      (hshort : rule = .comparison → rest.length ≤ 2)
      (hcheck : checkOperand rule.operand (.node own (first :: rest) span) first = .error error) :
      Stops rule (.node own (first :: rest) span) error
  | first {rule own : Rule} {first : Tree} {rest : List Tree} {span : Span}
      {error : LoweringError} (hform : rule.form = .chain) (heven : rest.length % 2 = 0)
      (hshort : rule = .comparison → rest.length ≤ 2)
      (hoperand : first.rule? = some rule.operand) (hfirst : Stops rule.operand first error) :
      Stops rule (.node own (first :: rest) span) error
  /-- An operator of a chain is not kept. -/
  | operator {rule : Rule} {chain operator operand : Tree} {rest : List Tree}
      {error : LoweringError} (hcomes : ComesTo rule chain (operator :: operand :: rest))
      (hoperator : lowerConnective rule operator = .error error) : Stops rule chain error
  /-- A further operand of a chain does not apply the rule that the chain prescribes. -/
  | operandRule {rule : Rule} {chain operator operand : Tree} {rest : List Tree}
      {connective : Connective} {error : LoweringError}
      (hcomes : ComesTo rule chain (operator :: operand :: rest))
      (hconnective : lowerConnective rule operator = .ok connective)
      (hcheck : checkOperand rule.operand chain operand = .error error) : Stops rule chain error
  | operand {rule : Rule} {chain operator operand : Tree} {rest : List Tree}
      {connective : Connective} {error : LoweringError}
      (hcomes : ComesTo rule chain (operator :: operand :: rest))
      (hconnective : lowerConnective rule operator = .ok connective)
      (hrule : operand.rule? = some rule.operand) (hoperand : Stops rule.operand operand error) :
      Stops rule chain error
  | negation {rule own : Rule} {word : Token} {operand : Tree} {span : Span}
      {error : LoweringError} (hform : rule.form = .negation) (hword : word.is .keyword "not")
      (hoperand : operand.rule? = some .notTest) (hargument : Stops .notTest operand error) :
      Stops rule (.node own [.leaf word, operand] span) error
  | sign {rule own : Rule} {sign : Token} {operand : Tree} {span : Span}
      {operator : UnaryOperator} {error : LoweringError} (hform : rule.form = .factor)
      (hsign : sign? sign.text = some operator) (hoperand : operand.rule? = some .factor)
      (hargument : Stops .factor operand error) :
      Stops rule (.node own [.leaf sign, operand] span) error
  /-- An atom is no literal of a script. -/
  | atom {rule own : Rule} {children : List Tree} {span : Span} {error : LoweringError}
      (hform : rule.form = .atom) (hatom : lowerAtom (.node own children span) = .error error) :
      Stops rule (.node own children span) error

/-- A step that fails stops the chain that comes to it. -/
theorem ComesTo.lowerAs_eq_error {rule : Rule} {chain operator operand : Tree}
    {rest : List Tree} {error : LoweringError}
    (h : ComesTo rule chain (operator :: operand :: rest))
    (hfails : lowerStep rule chain operator operand = .error error) :
    lowerAs rule chain = .error error := by
  rcases h.lowerAs_eq with ⟨left, hlower⟩
  rw [hlower, lowerRest_cons, hfails]
  rfl

/-- Along a derivation that stops lowering fails. -/
theorem Stops.lowerAs_eq_error {rule : Rule} {tree : Tree} {error : LoweringError}
    (h : Stops rule tree error) : lowerAs rule tree = .error error := by
  induction h with
  | token token => exact lowerAs_leaf _ token
  | exit hexit => exact hexit.lowerAs_eq_error
  | inner hinner hbelow _ ih => rw [lowerAs_inner hinner hbelow, ih]
  | firstRule hform heven hshort hcheck =>
      rw [lowerAs_chain_eq hform heven hshort, hcheck]
      rfl
  | first hform heven hshort hoperand _ ih =>
      rw [lowerAs_chain hform heven hshort hoperand, ih]
      rfl
  | operator hcomes hoperator =>
      exact hcomes.lowerAs_eq_error (lowerStep_eq_error_iff.mpr (Or.inl hoperator))
  | operandRule hcomes hconnective hcheck =>
      exact hcomes.lowerAs_eq_error
        (lowerStep_eq_error_iff.mpr (Or.inr ⟨_, hconnective, Or.inl hcheck⟩))
  | operand hcomes hconnective hrule _ ih =>
      exact hcomes.lowerAs_eq_error
        (lowerStep_eq_error_iff.mpr (Or.inr ⟨_, hconnective, Or.inr ⟨hrule, ih⟩⟩))
  | negation hform hword hoperand _ ih =>
      rw [lowerAs_negation hform hword hoperand, ih]
      rfl
  | sign hform hsign hoperand _ ih =>
      rw [lowerAs_sign hform hsign hoperand, ih]
      rfl
  | atom hform hatom => rw [lowerAs_atom hform, hatom]

/-- A chain that fails does so at its first operand or at a further step. -/
theorem stops_of_lowerAs_chain {rule own : Rule} {first : Tree} {rest : List Tree} {span : Span}
    {error : LoweringError} (hform : rule.form = .chain) (heven : rest.length % 2 = 0)
    (hshort : rule = .comparison → rest.length ≤ 2)
    (ih : ∀ child ∈ first :: rest, ∀ {rule error}, lowerAs rule child = .error error →
      Stops rule child error)
    (h : lowerAs rule (.node own (first :: rest) span) = .error error) :
    Stops rule (.node own (first :: rest) span) error := by
  rw [lowerAs_chain_eq hform heven hshort] at h
  rcases Lowered.bind_eq_error.mp h with hcheck | ⟨_, hoperand, h⟩
  · exact .firstRule hform heven hshort hcheck
  have hrule := checkOperand_eq_ok_iff.mp hoperand
  rcases Lowered.bind_eq_error.mp h with hfirst | ⟨left, hfirst, h⟩
  · exact .first hform heven hshort hrule (ih first (by simp) hfirst)
  obtain ⟨steps, operator, operand, rest, rfl, hsteps, hfails⟩ :=
    (lowerRest_eq_error_iff heven).mp h
  rw [List.length_append, ChainStep.length_flatMap_children] at heven hshort
  have hcomes : ComesTo rule
      (.node own (first :: (steps.flatMap ChainStep.children ++ operator :: operand :: rest)) span)
      (operator :: operand :: rest) :=
    .intro hform (by omega) hshort hrule hfirst hsteps
  rcases lowerStep_eq_error_iff.mp hfails with hoperator | ⟨connective, hconnective, hfails⟩
  · exact .operator hcomes hoperator
  rcases hfails with hcheck | ⟨hrule', hoperand⟩
  · exact .operandRule hcomes hconnective hcheck
  · exact .operand hcomes hconnective hrule' (ih operand (by simp) hoperand)

/-- A run that fails is a derivation that stops. -/
theorem stops_of_lowerAs {rule : Rule} {tree : Tree} {error : LoweringError}
    (h : lowerAs rule tree = .error error) : Stops rule tree error := by
  induction tree using Tree.inductionOnChildren generalizing rule error with
  | leaf token =>
      rw [lowerAs_leaf] at h
      obtain rfl := Except.error.inj h
      exact .token token
  | node own children span ih =>
      rcases descends_or_exit rule (.node own children span) children with hdescends | ⟨_, _, hexit⟩
      · cases hdescends with
        | inner hinner hbelow =>
            rw [lowerAs_inner hinner hbelow] at h
            exact .inner hinner hbelow (ih _ (by simp) h)
        | chain hform heven hshort => exact stops_of_lowerAs_chain hform heven hshort ih h
        | negation hform hword hoperand =>
            rw [lowerAs_negation hform hword hoperand] at h
            rcases Lowered.bind_eq_error.mp h with hargument | ⟨_, _, hresult⟩
            · exact .negation hform hword hoperand (ih _ (by simp) hargument)
            · contradiction
        | sign hform hsign hoperand =>
            rw [lowerAs_sign hform hsign hoperand] at h
            rcases Lowered.bind_eq_error.mp h with hargument | ⟨_, _, hresult⟩
            · exact .sign hform hsign hoperand (ih _ (by simp) hargument)
            · contradiction
        | atom hform =>
            rw [lowerAs_atom hform] at h
            exact .atom hform h
      · rw [hexit.lowerAs_eq_error] at h
        obtain rfl := Except.error.inj h
        exact .exit hexit

/-- Lowering fails exactly along a derivation that stops. -/
theorem lowerAs_eq_error_iff {rule : Rule} {tree : Tree} {error : LoweringError} :
    lowerAs rule tree = .error error ↔ Stops rule tree error :=
  ⟨stops_of_lowerAs, Stops.lowerAs_eq_error⟩

/-! ## Expressions -/

/-- A node is lowered as its own rule. -/
theorem lowerExpression_of_rule? {tree : Tree} {rule : Rule} (h : tree.rule? = some rule) :
    lowerExpression tree = lowerAs rule tree := by
  simp [lowerExpression, h]

/-- A node stops at an exit when it is lowered as its own rule. -/
theorem Exit.lowerExpression_eq_error {rule : Rule} {children : List Tree} {span : Span}
    {part : Tree} {fault : Fault} (h : Exit rule (.node rule children span) children part fault) :
    lowerExpression (.node rule children span) = .error (fault.errorAt part) := by
  rw [lowerExpression_of_rule? (Tree.rule?_node ..), h.lowerAs_eq_error]

/-- A node that lowering accepts has a derivation as its own rule. -/
theorem lowerExpression_eq_ok_iff {tree : Tree} {e : Expr} :
    lowerExpression tree = .ok e ↔ ∃ rule, tree.rule? = some rule ∧ Lowers rule tree e := by
  unfold lowerExpression
  split
  · rename_i rule hrule
    simp [hrule, lowerAs_eq_ok_iff]
  · rename_i hnone
    simp [hnone]

end ScriptLowering
