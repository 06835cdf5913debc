import ScriptLowering.Grammar.Tree

/-!
# The ladder of precedence rules

The expression rules form a ladder from the tightest binding, `atom`, to the
loosest, `testlist_star_expr`.  The operands of a rule on the ladder apply the
rule one level below it, so an operand that binds tighter is lifted: wrapped in
nodes with a single child until it reaches the level that is needed.

Main definitions:

- `Rule.ladder`, `Rule.level?`: the ladder and the place of a rule on it.
- `Rule.operand`: the rule of the operands of a rule on the ladder.
- `Tree.lift`: wraps a tree up to a level.
-/

namespace ScriptLowering

namespace Rule

/-- The precedence rules, the tightest binding first. -/
def ladder : List Rule :=
  [ .atom, .atomExpr, .power, .factor, .term, .arithExpr, .shiftExpr, .andExpr, .xorExpr,
    .expr, .comparison, .notTest, .andTest, .orTest, .test, .testlistStarExpr]

/-- The height of a rule on the ladder, if it stands there. -/
def level? (rule : Rule) : Option Nat :=
  ladder.idxOf? rule

/-- The rule one level below; the lowest rule and the rules beside the ladder are their own. -/
def operand (rule : Rule) : Rule :=
  match rule.level? with
  | some (level + 1) => ladder.getD level rule
  | _ => rule

end Rule

namespace Tree

/-- Wraps a tree in one node after the other, each the only child of the next. -/
def wrap (tree : Tree) (rules : List Rule) : Tree :=
  rules.foldl (fun inner rule => ofChildren rule [inner]) tree

@[simp]
theorem wrap_nil (tree : Tree) : tree.wrap [] = tree :=
  rfl

@[simp]
theorem wrap_cons (tree : Tree) (rule : Rule) (rules : List Rule) :
    tree.wrap (rule :: rules) = (ofChildren rule [tree]).wrap rules :=
  rfl

@[simp]
theorem span_wrap (tree : Tree) (rules : List Rule) : (tree.wrap rules).span = tree.span := by
  induction rules generalizing tree with
  | nil => rfl
  | cons rule rules ih => simp [ih, ofChildren, cover]

@[simp]
theorem tokens_wrap (tree : Tree) (rules : List Rule) :
    (tree.wrap rules).tokens = tree.tokens := by
  induction rules generalizing tree with
  | nil => rfl
  | cons rule rules ih => simp [ih, ofChildren]

/-- The rules strictly above one level of the ladder, up to and including another. -/
def stepsBetween (lower upper : Nat) : List Rule :=
  (Rule.ladder.take (upper + 1)).drop (lower + 1)

/-- Wraps a tree up to the level of `target`; a tree beside the ladder, or one that stands at that
level or above it, stays as it is. -/
def lift (tree : Tree) (target : Rule) : Tree :=
  match tree.rule?.bind Rule.level?, target.level? with
  | some lower, some upper => tree.wrap (stepsBetween lower upper)
  | _, _ => tree

/-- Lifting leaves the place of a tree as it is. -/
@[simp]
theorem span_lift (tree : Tree) (target : Rule) : (tree.lift target).span = tree.span := by
  unfold lift
  split
  · exact span_wrap tree _
  · rfl

/-- Lifting adds no token and drops none. -/
@[simp]
theorem tokens_lift (tree : Tree) (target : Rule) : (tree.lift target).tokens = tree.tokens := by
  unfold lift
  split
  · exact tokens_wrap tree _
  · rfl

end Tree

end ScriptLowering
