import Mathlib.Data.List.Chain
import ScriptLowering.Proofs.Conformance
import ScriptLowering.Proofs.Descent

/-!
# Lifting and lowering

A lifted tree has nodes around it, one for each level of the ladder that it was
lifted through, and each of them has a single child.  Whatever passes from a
tree to the node of the next level around it therefore holds of the lifted tree
when it holds of the tree.  Lowering is the first example: every level hands
over to the only child, so a lifted tree is lowered to what the tree is lowered
to, or fails in the same way.  Lifting goes on from the level that was reached, so
a tree that is lifted twice is lifted to the looser of the two rules.

Main results:

- Theorem `Tree.lift_induction`: what passes from each level of the ladder to
  the next passes to a lifted tree.
- Theorem `Tree.BindsWithin.rule?_lift`: a tree is lifted to the rule that was asked for.
- Theorem `lowerExpression_lift`: lifting a tree changes nothing for lowering.
- Theorem `Tree.Conforms.lift`: lifting keeps a tree in the grammar.
- Theorem `Tree.lift_lift`: lifting twice is lifting to the looser rule.
- Theorem `lifting_isTransparent`: lifting is seen by nothing but the rule at the
  root.
-/

namespace ScriptLowering

/-! ## Rungs of the ladder -/

namespace Rule

/-- Each rule of the ladder together with the rule one level above it. -/
def rungs : List (Rule × Rule) :=
  ladder.zip ladder.tail

/-- A rule stands one level below another on the ladder. -/
def IsBelow (below above : Rule) : Prop :=
  (below, above) ∈ rungs

instance (below above : Rule) : Decidable (IsBelow below above) :=
  inferInstanceAs (Decidable ((below, above) ∈ rungs))

/-- Every rule of the ladder is right below the next one. -/
theorem isChain_ladder : ladder.IsChain IsBelow := by
  decide

/-- The rule of a level is found there. -/
theorem getElem?_ladder {rule : Rule} {level : Nat} (h : rule.level? = some level) :
    ladder[level]? = some rule := by
  obtain ⟨hlevel, hrule, -⟩ := List.idxOf?_eq_some_iff.mp h
  rw [List.getElem?_eq_getElem hlevel, hrule]

/-- Both rules stand on the ladder, and the first no higher than the second. -/
def IsUnder (rule target : Rule) : Prop :=
  ∃ lower ∈ rule.level?, ∃ upper ∈ target.level?, lower ≤ upper

instance (rule target : Rule) : Decidable (IsUnder rule target) :=
  inferInstanceAs (Decidable (∃ lower ∈ rule.level?, ∃ upper ∈ target.level?, lower ≤ upper))

/-- The looser of two rules, the one that stands higher on the ladder.  A rule
beside the ladder gives way to the other. -/
def looser (a b : Rule) : Rule :=
  match a.level?, b.level? with
  | some level, some level' => if level ≤ level' then b else a
  | some _, none => a
  | none, _ => b

/-- A rule beside the ladder gives way to the other. -/
theorem looser_of_level?_eq_none {a : Rule} (h : a.level? = none) (b : Rule) :
    a.looser b = b := by
  simp [looser, h]

/-- Of two rules the one that stands higher is looser. -/
theorem looser_of_isUnder {a b : Rule} (h : a.IsUnder b) : a.looser b = b := by
  obtain ⟨lower, hlower, upper, hupper, hle⟩ := h
  rw [Option.mem_def] at hlower hupper
  simp [looser, hlower, hupper, hle]

/-- A rule that does not stand under the other is the looser one. -/
theorem looser_of_not_isUnder {a b : Rule} {level : Nat} (ha : a.level? = some level)
    (h : ¬ a.IsUnder b) : a.looser b = a := by
  cases hb : b.level? with
  | none => simp [looser, ha, hb]
  | some level' =>
      have hlt : ¬ level ≤ level' := fun hle => h ⟨level, ha, level', hb, hle⟩
      simp [looser, ha, hb, hlt]

/-- A rung is a chain over its operands, or a rule that hands over to its only
child. -/
theorem IsBelow.operand_or_inner? {below above : Rule} (h : below.IsBelow above) :
    (above.form = .chain ∧ above.operand = below) ∨ above.form.inner? = some below := by
  have hall : ∀ rung ∈ rungs,
      (rung.2.form = .chain ∧ rung.2.operand = rung.1) ∨ rung.2.form.inner? = some rung.1 := by
    decide
  exact hall _ h

end Rule

namespace Tree

/-! ## Lifted trees -/

/-- A tree applies a rule of the ladder that binds no looser than a given one. -/
def BindsWithin (tree : Tree) (rule : Rule) : Prop :=
  ∃ own ∈ tree.rule?, own.IsUnder rule

instance (tree : Tree) (rule : Rule) : Decidable (tree.BindsWithin rule) :=
  inferInstanceAs (Decidable (∃ own ∈ tree.rule?, own.IsUnder rule))

/-- No rule is above a level and not above a lower one. -/
theorem stepsBetween_of_lt {lower upper : Nat} (h : upper < lower) :
    stepsBetween lower upper = [] := by
  unfold stepsBetween
  apply List.drop_eq_nil_of_le
  rw [List.length_take]
  omega

/-- A tree on the ladder is wrapped in the rules between its own level and the level
of the target. -/
theorem lift_of_levels {tree : Tree} {rule target : Rule} {lower upper : Nat}
    (hrule : tree.rule? = some rule) (hlower : rule.level? = some lower)
    (hupper : target.level? = some upper) :
    tree.lift target = tree.wrap (stepsBetween lower upper) := by
  simp [lift, hrule, hlower, hupper]

/-- A tree beside the ladder, or one that binds looser than the target, stays as it
is. -/
theorem lift_of_not_bindsWithin {tree : Tree} {target : Rule} (h : ¬ tree.BindsWithin target) :
    tree.lift target = tree := by
  unfold lift
  split
  · rename_i lower upper hlower hupper
    obtain ⟨rule, hrule, hlevel⟩ := Option.bind_eq_some_iff.mp hlower
    have hlt : upper < lower := by
      by_contra hle
      exact h ⟨rule, hrule, lower, hlevel, upper, hupper, by omega⟩
    rw [stepsBetween_of_lt hlt, wrap_nil]
  · rfl

/-! ## Induction along a lift -/

/-- What passes from each level to the next passes through the wrappers around a
tree. -/
theorem wrap_induction {motive : Tree → Prop}
    (step : ∀ {below above : Rule} {tree : Tree}, below.IsBelow above →
      tree.rule? = some below → motive tree → motive (ofChildren above [tree]))
    {rule : Rule} {rules : List Rule} {tree : Tree}
    (hchain : (rule :: rules).IsChain Rule.IsBelow) (hrule : tree.rule? = some rule)
    (h : motive tree) : motive (tree.wrap rules) := by
  induction rules generalizing rule tree with
  | nil => exact h
  | cons next rules ih =>
      obtain ⟨hbelow, hrest⟩ := List.isChain_cons_cons.mp hchain
      rw [wrap_cons]
      exact ih hrest (rule?_ofChildren next [tree]) (step hbelow hrule h)

/-- The rules strictly above a level continue the ladder from there. -/
theorem cons_stepsBetween {rule : Rule} {lower upper : Nat} (hrule : rule.level? = some lower)
    (hle : lower ≤ upper) :
    rule :: stepsBetween lower upper = (Rule.ladder.take (upper + 1)).drop lower := by
  have hget : (Rule.ladder.take (upper + 1))[lower]? = some rule := by
    rw [List.getElem?_take_of_lt (by omega), Rule.getElem?_ladder hrule]
  obtain ⟨hlength, hvalue⟩ := List.getElem?_eq_some_iff.mp hget
  rw [stepsBetween, List.drop_eq_getElem_cons hlength, hvalue]

/-- What passes from each level of the ladder to the next passes from a tree to
the lifted tree. -/
theorem lift_induction {motive : Tree → Prop}
    (step : ∀ {below above : Rule} {tree : Tree}, below.IsBelow above →
      tree.rule? = some below → motive tree → motive (ofChildren above [tree]))
    {tree : Tree} (h : motive tree) (target : Rule) : motive (tree.lift target) := by
  by_cases hwithin : tree.BindsWithin target
  · obtain ⟨rule, hrule, lower, hlower, upper, hupper, hle⟩ := hwithin
    have hchain : (rule :: stepsBetween lower upper).IsChain Rule.IsBelow := by
      rw [cons_stepsBetween hlower hle]
      exact (Rule.isChain_ladder.take (upper + 1)).drop lower
    rw [lift_of_levels hrule hlower hupper]
    exact wrap_induction step hchain hrule h
  · rw [lift_of_not_bindsWithin hwithin]
    exact h

/-! ## The rule of a lifted tree -/

/-- A wrapped tree applies the last rule that it was wrapped in. -/
theorem rule?_wrap (tree : Tree) (rules : List Rule) :
    (tree.wrap rules).rule? = rules.getLast?.or tree.rule? := by
  induction rules generalizing tree with
  | nil => rfl
  | cons rule rules ih =>
      rw [wrap_cons, ih, rule?_ofChildren, List.getLast?_cons]
      cases rules.getLast? <;> rfl

/-- A tree is lifted to the rule that was asked for, unless it binds looser
already. -/
theorem BindsWithin.rule?_lift {tree : Tree} {target : Rule} (h : tree.BindsWithin target) :
    (tree.lift target).rule? = some target := by
  obtain ⟨rule, hrule, lower, hlower, upper, hupper, hle⟩ := h
  rw [Option.mem_def] at hlower hupper
  -- The last of the wrappers is the last rule of this part of the ladder.
  have hlast : (rule :: stepsBetween lower upper).getLast? = some target := by
    have hlength := (List.getElem?_eq_some_iff.mp (Rule.getElem?_ladder hupper)).1
    rw [cons_stepsBetween hlower hle, List.getLast?_drop, List.getLast?_take, if_neg, if_neg]
    · rw [Nat.add_sub_cancel, Rule.getElem?_ladder hupper, Option.some_or]
    · omega
    · rw [List.length_take]
      omega
  rw [lift_of_levels hrule hlower hupper, rule?_wrap, hrule]
  rw [List.getLast?_cons] at hlast
  cases hsteps : (stepsBetween lower upper).getLast? <;> simpa [hsteps] using hlast

/-! ## Lifting twice -/

theorem wrap_append (tree : Tree) (rules rules' : List Rule) :
    tree.wrap (rules ++ rules') = (tree.wrap rules).wrap rules' :=
  List.foldl_append

/-- The rules up to a level are those up to a level in between and those from there
on. -/
theorem stepsBetween_append {lower middle upper : Nat} (hlower : lower ≤ middle)
    (hupper : middle ≤ upper) :
    stepsBetween lower middle ++ stepsBetween middle upper = stepsBetween lower upper := by
  have hbelow : (stepsBetween lower upper).take (middle - lower) = stepsBetween lower middle := by
    have htake : min (lower + 1 + (middle - lower)) (upper + 1) = middle + 1 := by omega
    rw [stepsBetween, stepsBetween, List.take_drop, List.take_take, htake]
  have habove : (stepsBetween lower upper).drop (middle - lower) = stepsBetween middle upper := by
    have hdrop : lower + 1 + (middle - lower) = middle + 1 := by omega
    rw [stepsBetween, stepsBetween, List.drop_drop, hdrop]
  rw [← hbelow, ← habove, List.take_append_drop]

/-- A lift on the way to a looser rule is part of the way. -/
theorem lift_lift_of_isUnder (tree : Tree) {a b : Rule} (hunder : a.IsUnder b) :
    (tree.lift a).lift b = tree.lift b := by
  by_cases hwithin : tree.BindsWithin a
  · have hmiddle := hwithin.rule?_lift
    obtain ⟨rule, hrule, lower, hlower, middle, ha, hle⟩ := hwithin
    obtain ⟨middle', ha', upper, hupper, hle'⟩ := hunder
    obtain rfl : middle = middle' := Option.some.inj (ha.symm.trans ha')
    rw [lift_of_levels hmiddle ha hupper, lift_of_levels hrule hlower ha,
      lift_of_levels hrule hlower hupper, ← wrap_append, stepsBetween_append hle hle']
  · rw [lift_of_not_bindsWithin hwithin]

/-- A tree that was lifted is not lifted to a rule that binds tighter. -/
theorem lift_lift_of_not_isUnder (tree : Tree) {a b : Rule} {level : Nat}
    (ha : a.level? = some level) (h : ¬ a.IsUnder b) : (tree.lift a).lift b = tree.lift a := by
  apply lift_of_not_bindsWithin
  rintro ⟨rule, hrule, hbelow⟩
  by_cases hwithin : tree.BindsWithin a
  · obtain rfl : a = rule := Option.some.inj (hwithin.rule?_lift.symm.trans hrule)
    exact h hbelow
  · -- The tree binds looser than the first rule and within the second, so the first is under it.
    rw [lift_of_not_bindsWithin hwithin] at hrule
    obtain ⟨lower, hlower, upper, hupper, hle⟩ := hbelow
    have hfirst : level < lower := by
      by_contra hle'
      exact hwithin ⟨rule, hrule, lower, hlower, level, ha, by omega⟩
    exact h ⟨level, ha, upper, hupper, by omega⟩

/-- Lifting twice is lifting to the looser of the two rules. -/
theorem lift_lift (tree : Tree) (a b : Rule) :
    (tree.lift a).lift b = tree.lift (a.looser b) := by
  cases ha : a.level? with
  | none =>
      have hsame : tree.lift a = tree := by
        apply lift_of_not_bindsWithin
        rintro ⟨rule, -, lower, -, upper, hupper, -⟩
        rw [Option.mem_def, ha] at hupper
        contradiction
      rw [hsame, Rule.looser_of_level?_eq_none ha]
  | some level =>
      by_cases hunder : a.IsUnder b
      · rw [lift_lift_of_isUnder tree hunder, Rule.looser_of_isUnder hunder]
      · rw [lift_lift_of_not_isUnder tree ha hunder, Rule.looser_of_not_isUnder ha hunder]

end Tree

/-! ## Lowering a lifted tree -/

/-- A chain of a single operand is lowered to what the operand is lowered to. -/
theorem lowerAs_chain_singleton {rule own : Rule} {operand : Tree} {span : Span}
    (hform : rule.form = .chain) (hoperand : operand.rule? = some rule.operand) :
    lowerAs rule (.node own [operand] span) = lowerAs rule.operand operand := by
  rw [lowerAs_chain hform rfl (fun _ => Nat.zero_le _) hoperand]
  cases lowerAs rule.operand operand with
  | error error => rfl
  | ok e =>
      rw [show (Except.ok e >>= fun left => lowerRest rule (.node own [operand] span) left []) =
        lowerRest rule (.node own [operand] span) e [] from rfl, lowerRest]

/-- The node of the next level around a tree is lowered as the tree is. -/
theorem lowerExpression_ofChildren {below above : Rule} {tree : Tree}
    (hbelow : below.IsBelow above) (hrule : tree.rule? = some below) :
    lowerExpression (.ofChildren above [tree]) = lowerExpression tree := by
  rw [lowerExpression_of_rule? (Tree.rule?_ofChildren above [tree]),
    lowerExpression_of_rule? hrule, Tree.ofChildren]
  rcases hbelow.operand_or_inner? with ⟨hform, rfl⟩ | hinner
  · exact lowerAs_chain_singleton hform hrule
  · exact lowerAs_inner hinner hrule

/-- Lifting a tree changes nothing for lowering, neither the result nor the
error. -/
theorem lowerExpression_lift (tree : Tree) (target : Rule) :
    lowerExpression (tree.lift target) = lowerExpression tree := by
  apply Tree.lift_induction (motive := fun lifted => lowerExpression lifted = lowerExpression tree)
  · intro below above lifted hbelow hrule ih
    rw [lowerExpression_ofChildren hbelow hrule, ih]
  · rfl

/-- A derivation is lifted with its tree. -/
theorem Lowers.lift {rule target : Rule} {tree : Tree} {e : Expr} (h : Lowers rule tree e)
    (hrule : tree.rule? = some rule) (hunder : rule.IsUnder target) :
    Lowers target (tree.lift target) e := by
  have hlower := lowerExpression_lift tree target
  have hwithin : tree.BindsWithin target := ⟨rule, hrule, hunder⟩
  rw [lowerExpression_of_rule? hwithin.rule?_lift, lowerExpression_of_rule? hrule,
    h.lowerAs_eq_ok] at hlower
  exact lowers_of_lowerAs hlower

/-! ## Trees of the grammar -/

/-- An operand of the grammar alone is a chain. -/
theorem Tree.Conforms.single {rule below : Rule} {first : Tree} {span : Span}
    (hrule : (rule, below) ∈ Rule.chains) (hfirst : first.rule? = some below)
    (h : first.Conforms) : (Tree.node rule [first] span).Conforms :=
  have hchain : (Tree.node rule (first :: chainTail []) span).Conforms :=
    .chain hrule hfirst h (by simp) (by simp) (by simp)
  hchain

/-- The node of the next level around a tree of the grammar is one, too. -/
theorem Tree.Conforms.ofChildren {below above : Rule} {tree : Tree} (hbelow : below.IsBelow above)
    (hrule : tree.rule? = some below) (h : tree.Conforms) :
    (Tree.ofChildren above [tree]).Conforms := by
  by_cases hchain : (above, below) ∈ Rule.chains
  · exact .single hchain hrule h
  · have hother : ∀ rung ∈ Rule.rungs, (rung.2, rung.1) ∉ Rule.chains →
        rung ∈ [(Rule.atom, Rule.atomExpr), (.atomExpr, .power), (.power, .factor),
          (.comparison, .notTest), (.orTest, .test), (.test, .testlistStarExpr)] := by
      decide
    have hmem := hother _ hbelow hchain
    simp only [List.mem_cons, Prod.mk.injEq, List.not_mem_nil, or_false] at hmem
    rcases hmem with ⟨rfl, rfl⟩ | ⟨rfl, rfl⟩ | ⟨rfl, rfl⟩ | ⟨rfl, rfl⟩ | ⟨rfl, rfl⟩ | ⟨rfl, rfl⟩
    · exact .trailed hrule h (by simp)
    · exact .base hrule h
    · exact .power hrule h
    · exact .comparison hrule h
    · exact .test (Or.inl hrule) h
    · exact .list (Or.inl rfl) (.single tree) (by simp [hrule]) (by simpa using h)

/-- Lifting keeps a tree in the grammar. -/
theorem Tree.Conforms.lift {tree : Tree} (h : tree.Conforms) (target : Rule) :
    (tree.lift target).Conforms :=
  Tree.lift_induction (fun hbelow hrule ih => ih.ofChildren hbelow hrule) h target

/-! ## Transparency -/

/-- Lifting is transparent: whatever a tree is and wherever it is lifted to, it is
lowered to the same expression or stops with the same error, stands in the same place
and has the same tokens, and a second lift only goes on from the first. -/
theorem lifting_isTransparent (tree : Tree) :
    (∀ target : Rule, lowerExpression (tree.lift target) = lowerExpression tree ∧
      (tree.lift target).span = tree.span ∧ (tree.lift target).tokens = tree.tokens) ∧
    ∀ a b : Rule, (tree.lift a).lift b = tree.lift (a.looser b) := by
  refine ⟨fun target => ?_, tree.lift_lift⟩
  exact ⟨lowerExpression_lift tree target, tree.span_lift target, tree.tokens_lift target⟩

end ScriptLowering
