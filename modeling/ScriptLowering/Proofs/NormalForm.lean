import ScriptLowering.Grammar.StatementForms
import ScriptLowering.Proofs.StatementDescent

/-!
# Normal form of lowered expressions

A script has no parentheses, so the operands of every operator have to bind
tightly enough.  Each level of the grammar bounds how loosely its results bind,
and a level takes its operands from the level below; the bounds therefore carry
over from the rules of a tree to the operators of its expression.

Main results:

- Definition `Rule.bindingLevel`: the loosest binding of what a rule is lowered
  to.
- Theorem `Expr.isNormal_joined`: operands of one level join to a normal form.
- Theorem `Lowers.isNormal`: what a rule is lowered to is in normal form and
  binds no looser than the rule.
- Theorem `isNormal_of_lowered`: every expression that lowering gives, on its own
  or in a statement, is in normal form.
-/

namespace ScriptLowering

/-! ## Rows of operands -/

/-- Operands of one level join to a normal form of that level, when its
connectives group to the left or when there is at most one of them. -/
theorem Expr.isNormal_joined {level : Nat} {left : Expr} {steps : List (Connective × Expr)}
    (hleft : left.IsNormal) (hbound : left.level ≤ level)
    (hstart : ∀ step ∈ steps, left.level ≤ step.1.leftLevel)
    (hgroup : steps.length ≤ 1 ∨ ∀ step ∈ steps, level ≤ step.1.leftLevel)
    (hsteps : ∀ step ∈ steps, step.1.level = level ∧ step.2.level < level ∧ step.2.IsNormal) :
    (left.joined steps).IsNormal ∧ (left.joined steps).level ≤ level := by
  induction steps generalizing left with
  | nil => exact ⟨hleft, hbound⟩
  | cons step steps ih =>
      obtain ⟨hlevel, hright, hnormal⟩ := hsteps step (by simp)
      have hjoin : (step.1.apply left step.2).IsNormal :=
        step.1.apply_eq_node left step.2 ▸
          Expr.isNormal_node.mpr ⟨hstart step (by simp), hlevel ▸ hright, hleft, hnormal⟩
      have hjoinLevel : (step.1.apply left step.2).level = level := by
        rw [Expr.level_apply, hlevel]
      have hnext : ∀ other ∈ steps, level ≤ other.1.leftLevel := by
        intro other hother
        rcases hgroup with hlength | hgroup
        · obtain rfl : steps = [] := by simpa using hlength
          contradiction
        · exact hgroup other (List.mem_cons_of_mem _ hother)
      exact ih hjoin (Nat.le_of_eq hjoinLevel) (fun other hother => hjoinLevel ▸ hnext other hother)
        (Or.inr hnext) (fun other hother => hsteps other (List.mem_cons_of_mem _ hother))

/-! ## Levels of rules -/

namespace Rule

/-- The loosest binding of what a rule is lowered to. -/
def bindingLevel : Rule → Nat
  | .atom | .atomExpr | .power => 0
  | .factor => 1
  | .term => 2
  | .arithExpr | .shiftExpr | .andExpr | .xorExpr => 3
  | .expr => 4
  | .comparison => 5
  | .notTest => 6
  | .andTest => 7
  | _ => 8

/-- A level binds no tighter than the level that it hands over to. -/
theorem bindingLevel_of_inner? {rule below : Rule} (h : rule.form.inner? = some below) :
    below.bindingLevel ≤ rule.bindingLevel := by
  cases rule <;> simp [form, Form.inner?] at h <;> subst h <;> decide

/-- A chain binds no tighter than its operands. -/
theorem bindingLevel_operand {rule : Rule} (h : rule.form = .chain) :
    rule.operand.bindingLevel ≤ rule.bindingLevel := by
  cases rule <;> simp [form] at h <;> decide

/-- A connective binds like the chain that keeps it, and looser than the
operands of the chain. -/
theorem level_of_mem_connectives (rule : Rule) :
    ∀ connective ∈ rule.connectives,
      connective.level = rule.bindingLevel ∧ rule.operand.bindingLevel < rule.bindingLevel ∧
        rule.operand.bindingLevel ≤ connective.leftLevel := by
  cases rule <;> decide

/-- The connectives of a chain group to the left, comparisons apart. -/
theorem leftLevel_of_mem_connectives {rule : Rule} (h : rule ≠ .comparison) :
    ∀ connective ∈ rule.connectives, rule.bindingLevel ≤ connective.leftLevel := by
  cases rule
  case comparison => contradiction
  all_goals decide

end Rule

/-! ## Normal form -/

/-- The first operand and the steps of a chain join to a normal form that binds
like the chain. -/
theorem isNormal_chain {rule : Rule} {left : Expr} {steps : List ChainStep}
    (hform : rule.form = .chain) (hshort : rule = .comparison → steps.length ≤ 1)
    (hconnectives : ∀ step ∈ steps, lowerConnective rule step.operator = .ok step.connective)
    (hleft : left.IsNormal ∧ left.level ≤ rule.operand.bindingLevel)
    (hrights : ∀ step ∈ steps,
      step.right.IsNormal ∧ step.right.level ≤ rule.operand.bindingLevel) :
    (left.joined (steps.map ChainStep.joins)).IsNormal ∧
      (left.joined (steps.map ChainStep.joins)).level ≤ rule.bindingLevel := by
  have hbelow := Rule.bindingLevel_operand hform
  have hmem : ∀ step ∈ steps, step.connective ∈ rule.connectives :=
    fun step hstep => mem_connectives_of_lowerConnective (hconnectives step hstep)
  apply Expr.isNormal_joined hleft.1 (Nat.le_trans hleft.2 hbelow)
  · intro joined hjoined
    obtain ⟨step, hstep, rfl⟩ := List.mem_map.mp hjoined
    exact Nat.le_trans hleft.2 (rule.level_of_mem_connectives _ (hmem step hstep)).2.2
  · by_cases hrule : rule = .comparison
    · left
      rw [List.length_map]
      exact hshort hrule
    · right
      intro joined hjoined
      obtain ⟨step, hstep, rfl⟩ := List.mem_map.mp hjoined
      exact Rule.leftLevel_of_mem_connectives hrule _ (hmem step hstep)
  · intro joined hjoined
    obtain ⟨step, hstep, rfl⟩ := List.mem_map.mp hjoined
    obtain ⟨hlevel, hstrict, -⟩ := rule.level_of_mem_connectives _ (hmem step hstep)
    obtain ⟨hnormal, hright⟩ := hrights step hstep
    exact ⟨hlevel, Nat.lt_of_le_of_lt hright hstrict, hnormal⟩

/-- What a rule is lowered to is in normal form and binds no looser than the
rule. -/
theorem Lowers.isNormal {rule : Rule} {tree : Tree} {e : Expr} (h : Lowers rule tree e) :
    e.IsNormal ∧ e.level ≤ rule.bindingLevel := by
  induction h with
  | inner hinner _ _ ih => exact ⟨ih.1, Nat.le_trans ih.2 (Rule.bindingLevel_of_inner? hinner)⟩
  | chain hform hshort _ _ hconnectives _ _ ihfirst ihrights =>
      exact isNormal_chain hform hshort hconnectives ihfirst ihrights
  | @negation rule _ _ _ _ _ hform _ _ _ ih =>
      obtain rfl := Rule.form_eq_negation_iff.mp hform
      exact ⟨⟨ih.2, ih.1⟩, Nat.le_refl _⟩
  | @sign rule _ _ _ _ _ operator hform hsign _ _ ih =>
      have hlevel : operator.level = 1 := by
        rcases (sign?_eq_some hsign).1 with rfl | rfl <;> rfl
      obtain rfl := Rule.form_eq_factor_iff.mp hform
      exact ⟨⟨hlevel ▸ ih.2, ih.1⟩, Nat.le_of_eq hlevel⟩
  | atom => exact ⟨trivial, Nat.zero_le _⟩

/-- A node that is lowered as its own rule is lowered to a normal form. -/
theorem isNormal_of_lowerExpression {tree : Tree} {e : Expr} (h : lowerExpression tree = .ok e) :
    e.IsNormal := by
  obtain ⟨rule, -, hlowers⟩ := lowerExpression_eq_ok_iff.mp h
  exact hlowers.isNormal.1

/-- The expressions of a statement. -/
def Statement.operands : Statement → List Expr
  | .expression value _ => [value]
  | .assignment _ target value _ => [target, value]

/-- The operands of an expression statement that is lowered are normal forms. -/
theorem LowersExprStmt.isNormal {stmt : Tree} {statement : Statement}
    (h : LowersExprStmt stmt statement) : ∀ e ∈ statement.operands, e.IsNormal := by
  cases h with
  | expression hchildren hoperand hvalue =>
      simpa [Statement.operands] using (lowers_of_lowerValue hvalue).isNormal.1
  | assignment _ _ _ _ hleft hright =>
      have htarget := isNormal_of_lowerExpression (lowerExpression_of_lowerTarget hleft)
      have hvalue := (lowers_of_lowerValue hright).isNormal.1
      simp [Statement.operands, htarget, hvalue]
  | augmented _ _ _ _ hleft _ hright =>
      have htarget := isNormal_of_lowerExpression (lowerExpression_of_lowerTarget hleft)
      have hvalue := (lowers_of_lowerValue hright).isNormal.1
      simp [Statement.operands, htarget, hvalue]

/-- Every expression that lowering gives is in normal form, at whatever level
it starts and whatever the tree is: an expression, a test, a list of tests, an
expression on its own, and both sides of a statement. -/
theorem isNormal_of_lowered (tree : Tree) :
    (∀ e, lowerExpression tree = .ok e → e.IsNormal) ∧
      (∀ e, lowerTest tree = .ok e → e.IsNormal) ∧
      (∀ e, lowerTestlist tree = .ok e → e.IsNormal) ∧
      (∀ e, lowerEvalInput tree = .ok e → e.IsNormal) ∧
      ∀ statement, lowerSimpleStmt tree = .ok statement →
        ∀ e ∈ statement.operands, e.IsNormal := by
  refine ⟨?_, ?_, ?_, ?_, ?_⟩
  · intro e h
    exact isNormal_of_lowerExpression h
  · intro e h
    exact (lowers_of_lowerAs h).isNormal.1
  · intro e h
    exact (lowers_of_lowerAs h).isNormal.1
  · intro e h
    obtain ⟨list, rest, -, -, -, -, hlowers⟩ := exists_testlist_of_lowerEvalInput h
    exact hlowers.isNormal.1
  · intro statement h
    obtain ⟨-, before, small, after, stmt, -, -, -, -, -, -, hlowers⟩ :=
      exists_exprStmt_of_lowerSimpleStmt h
    exact hlowers.isNormal

/-- An assignment of a difference and a sum of three names. -/
def assignedDifference : Tree :=
  .simpleStmt
    [.assignment (.identifier "a")
      (.chain .arithExpr (.identifier "b") [("-", .identifier "c"), ("+", .identifier "d")])]
    false

/-- The chain groups to the left, which needs no parentheses. -/
theorem isNormal_assignedDifference :
    ∃ statement, lowerSimpleStmt assignedDifference = .ok statement ∧
      ∀ e ∈ statement.operands, e.IsNormal :=
  ⟨_, rfl, (isNormal_of_lowered assignedDifference).2.2.2.2 _ rfl⟩

end ScriptLowering
