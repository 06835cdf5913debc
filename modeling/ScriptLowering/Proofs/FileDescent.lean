import ScriptLowering.Proofs.Conformance
import ScriptLowering.Proofs.ProgramAcceptance

/-!
# Derivations of files

A file is lowered child by child: a structural token contributes nothing, and a
statement contributes what its only small statement is lowered to.  A derivation
of a file names, for each of its statements, the separators on the two sides of
that small statement and the expression statement in it.

Main results:

- Theorem `Tree.mem_parts_iff`: the parts of a tree can be listed.
- Theorem `lowerStmt_eq_ok_iff`: lowering a statement succeeds exactly along a
  derivation.
- Theorem `lowerFileInput_eq_ok_iff`: lowering a file succeeds exactly along a
  derivation of its lines.
-/

namespace ScriptLowering

/-! ## Listing the parts of a tree -/

namespace Tree

/-- The parts of a tree, the tree itself first. -/
def parts (tree : Tree) : List Tree :=
  (tree.preorder 0).map Prod.snd

theorem map_snd_preorderOfAll (depth : Nat) (trees : List Tree) :
    (preorderOfAll depth trees).map Prod.snd =
      trees.flatMap fun tree => (tree.preorder depth).map Prod.snd := by
  induction trees with
  | nil => rfl
  | cons tree trees ih => rw [preorderOfAll, List.map_append, ih, List.flatMap_cons]

/-- Depths leave no trace in the parts of a tree. -/
theorem map_snd_preorder (depth : Nat) (tree : Tree) :
    (tree.preorder depth).map Prod.snd = tree.parts := by
  unfold parts
  generalize 0 = other
  induction tree using Tree.inductionOnChildren generalizing depth other with
  | leaf token => rfl
  | node rule children span ih =>
      rw [preorder, preorder, List.map_cons, List.map_cons, map_snd_preorderOfAll,
        map_snd_preorderOfAll]
      congr 1
      exact List.flatMap_congr fun child hchild => ih child hchild _ _

@[simp]
theorem parts_leaf (token : Token) : (leaf token).parts = [leaf token] :=
  rfl

theorem parts_node (rule : Rule) (children : List Tree) (span : Span) :
    (node rule children span).parts = node rule children span :: children.flatMap parts := by
  rw [parts, preorder, List.map_cons, map_snd_preorderOfAll]
  congr 1
  exact List.flatMap_congr fun child _ => map_snd_preorder 1 child

/-- The parts of a tree are its subtrees and the tree itself. -/
theorem mem_parts_iff {part tree : Tree} : part ∈ tree.parts ↔ part.IsPartOf tree := by
  induction tree using Tree.inductionOnChildren with
  | leaf token =>
      rw [parts_leaf, List.mem_singleton]
      constructor
      · rintro rfl
        exact .refl
      · rintro ⟨⟩
        rfl
  | node rule children span ih =>
      rw [parts_node, List.mem_cons, List.mem_flatMap]
      constructor
      · rintro (rfl | ⟨child, hchild, hpart⟩)
        · exact .refl
        · exact .child hchild ((ih child hchild).mp hpart)
      · intro h
        cases h with
        | refl => exact Or.inl rfl
        | child hchild hpart => exact Or.inr ⟨_, hchild, (ih _ hchild).mpr hpart⟩

instance (p : Tree → Prop) [DecidablePred p] (tree : Tree) :
    Decidable (∀ part : Tree, part.IsPartOf tree → p part) :=
  decidable_of_iff (∀ part ∈ tree.parts, p part) (by simp only [mem_parts_iff])

/-- A node has a single child, which is a token. -/
def HoldsToken (tree : Tree) : Prop :=
  ∃ token, tree.children = [.leaf token]

instance : DecidablePred HoldsToken := fun tree =>
  decidable_of_iff (∃ token ∈ tree.childTokens, tree.children = [.leaf token]) (by
    constructor
    · rintro ⟨token, -, hchildren⟩
      exact ⟨token, hchildren⟩
    · rintro ⟨token, hchildren⟩
      refine ⟨token, ?_, hchildren⟩
      rw [childTokens, hchildren]
      exact List.mem_singleton_self token)

end Tree

/-! ## Statements -/

/-- A target is lowered along a derivation of its own rule. -/
theorem exists_lowers_of_lowerTarget {target : Tree} {e : Expr} (h : lowerTarget target = .ok e) :
    ∃ rule, target.rule? = some rule ∧ Lowers rule target e :=
  lowerExpression_eq_ok_iff.mp (lowerExpression_of_lowerTarget h)

/-- A value is lowered along a derivation of its own rule. -/
theorem exists_lowers_of_lowerValue {value : Tree} {e : Expr} (h : lowerValue value = .ok e) :
    ∃ rule, value.rule? = some rule ∧ Lowers rule value e := by
  unfold lowerValue at h
  split at h
  · simp at h
  · rename_i hrule
    have hsame : lowerAs .testlistStarExpr value = lowerAs .testlist value :=
      lowerAs_eq_of_form rfl rfl value
    exact ⟨_, hrule, lowers_of_lowerAs (hsame.trans h)⟩
  · rename_i hrule
    exact ⟨_, hrule, lowers_of_lowerAs h⟩
  · simp at h

/-- `LowersStmt stmt statement` when `stmt` is a line with one small statement
among separators, an expression statement that is lowered to `statement`. -/
inductive LowersStmt : Tree → Statement → Prop
  | line {before after : List Tree} {body : Tree} {statement : Statement}
      {span place spot : Span} (hbefore : ∀ child ∈ before, isSeparator child)
      (hafter : ∀ child ∈ after, isSeparator child) (hrule : body.rule? = some .exprStmt)
      (hbody : LowersExprStmt body statement) :
      LowersStmt
        (.node .stmt [.node .simpleStmt (before ++ .node .smallStmt [body] spot :: after) place]
          span)
        statement

/-- A tree that applies a rule is a node. -/
theorem Tree.eq_node_of_rule? {tree : Tree} {rule : Rule} (h : tree.rule? = some rule) :
    tree = .node rule tree.children tree.span := by
  cases tree with
  | leaf token => contradiction
  | node own children span =>
      obtain rfl := Option.some.inj h
      rfl

/-- A statement that is lowered has a derivation. -/
theorem lowersStmt_of_lowerStmt {stmt : Tree} {statement : Statement}
    (h : lowerStmt stmt = .ok statement) : LowersStmt stmt statement := by
  unfold lowerStmt at h
  split at h
  · rename_i hstmt
    split at h
    · rename_i rule children place hchildren
      dsimp only at h
      split at h
      · obtain ⟨-, before, small, after, body, hparts, hbefore, hafter, hsmall, hbody, hrule,
          hlowers⟩ := exists_exprStmt_of_lowerSimpleStmt h
        have hnode := Tree.eq_node_of_rule? (Tree.isNode_iff.mp hstmt)
        rw [hchildren, show children = _ from hparts, Tree.eq_node_of_rule? hsmall, hbody]
          at hnode
        rw [hnode]
        exact .line hbefore hafter hrule hlowers
      · unfold refuseCompound refuseCompoundRule at h
        split at h
        · split at h <;> simp at h
        · simp at h
      · unfold refuseCompoundRule at h
        split at h
        · split at h <;> simp at h
        · simp at h
    · simp at h
  · simp at h

theorem LowersStmt.lowerStmt_eq_ok {stmt : Tree} {statement : Statement}
    (h : LowersStmt stmt statement) : lowerStmt stmt = .ok statement := by
  cases h with
  | @line before after body _ span place spot hbefore hafter hrule hbody =>
      have hsmall : lowerSmallStmt (.node .smallStmt [body] spot) = .ok statement := by
        rw [Tree.eq_node_of_rule? hrule] at hbody ⊢
        exact lowerExprStmt_eq_ok_iff.mpr hbody
      exact (lowerSimpleStmt_of_separators hbefore rfl hafter place).trans hsmall

/-- Lowering a statement of a file succeeds exactly along a derivation. -/
theorem lowerStmt_eq_ok_iff {stmt : Tree} {statement : Statement} :
    lowerStmt stmt = .ok statement ↔ LowersStmt stmt statement :=
  ⟨lowersStmt_of_lowerStmt, LowersStmt.lowerStmt_eq_ok⟩

/-! ## Files -/

/-- `LowersLines lines statements` when the nodes among `lines` are lowered to
`statements` and everything else is a structural token. -/
inductive LowersLines : List Tree → List Statement → Prop
  | nil : LowersLines [] []
  | structural {token : Token} {lines : List Tree} {statements : List Statement}
      (htoken : token.isStructural) (hrest : LowersLines lines statements) :
      LowersLines (.leaf token :: lines) statements
  | stmt {stmt : Tree} {lines : List Tree} {statement : Statement} {statements : List Statement}
      (hstmt : LowersStmt stmt statement) (hrest : LowersLines lines statements) :
      LowersLines (stmt :: lines) (statement :: statements)

/-- Lines that are lowered have a derivation. -/
theorem lowersLines_of_lowerLines {lines : List Tree} {statements : List Statement}
    (h : lowerLines lines = .ok statements) : LowersLines lines statements := by
  induction lines generalizing statements with
  | nil =>
      rw [lowerLines] at h
      obtain rfl := Except.ok.inj h
      exact .nil
  | cons line lines ih =>
      cases line with
      | leaf token =>
          rw [lowerLines] at h
          split at h
          · rename_i htoken
            exact .structural htoken (ih h)
          · simp [refuseStray] at h
      | node rule children span =>
          rw [lowerLines] at h
          obtain ⟨statement, hstatement, h⟩ := Lowered.bind_eq_ok.mp h
          obtain ⟨rest, hrest, hresult⟩ := Lowered.bind_eq_ok.mp h
          obtain rfl := Except.ok.inj hresult
          exact .stmt (lowerStmt_eq_ok_iff.mp hstatement) (ih hrest)

theorem LowersLines.lowerLines_eq_ok {lines : List Tree} {statements : List Statement}
    (h : LowersLines lines statements) : lowerLines lines = .ok statements := by
  induction h with
  | nil => rfl
  | structural htoken _ ih => rw [lowerLines, if_pos htoken, ih]
  | stmt hstmt _ ih =>
      have hlower := lowerStmt_eq_ok_iff.mpr hstmt
      cases hstmt with
      | line =>
          rw [lowerLines, hlower, ih]
          rfl

/-- Lowering a file succeeds exactly along a derivation of its lines. -/
theorem lowerFileInput_eq_ok_iff {root : Tree} {program : Program} :
    lowerFileInput root = .ok program ↔
      root.rule? = some .fileInput ∧ LowersLines root.children program.body := by
  unfold lowerFileInput
  constructor
  · intro h
    split at h
    · rename_i hroot
      obtain ⟨statements, hstatements, hresult⟩ := Lowered.bind_eq_ok.mp h
      obtain rfl := Except.ok.inj hresult
      exact ⟨Tree.isNode_iff.mp hroot, lowersLines_of_lowerLines hstatements⟩
    · simp at h
  · rintro ⟨hroot, hlines⟩
    rw [if_pos (Tree.isNode_iff.mpr hroot), hlines.lowerLines_eq_ok]
    rfl

end ScriptLowering
