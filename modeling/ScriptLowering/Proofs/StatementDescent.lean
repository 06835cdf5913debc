import Mathlib.Data.List.Forall2
import ScriptLowering.Lowering.Program
import ScriptLowering.Proofs.Descent

/-!
# Derivations of statements

An expression statement is read child by child before anything in it is
lowered, and only three of the shapes that it can have are kept.  A derivation
of a statement names the shape, with the children and what each of them is
lowered to.

Main results:

- Theorem `readParts_eq_ok_iff`: reading the children of a statement succeeds
  exactly when every one of them is a part.
- Theorem `lowerExprStmt_eq_ok_iff`: lowering an expression statement succeeds
  exactly along a derivation.
- Theorem `exists_exprStmt_of_lowerSimpleStmt`: a line that is lowered holds one
  expression statement.
-/

namespace ScriptLowering

/-! ## The parts of a statement -/

/-- A tree that may stand beside an assignment operator. -/
def Tree.IsOperand (tree : Tree) : Prop :=
  tree.rule? = some .testlistStarExpr ∨ tree.rule? = some .testlist ∨ tree.rule? = some .yieldExpr

/-- What a child of an expression statement is read as. -/
inductive Part.Reads : Tree → Part → Prop
  | operand {child : Tree} (hoperand : child.IsOperand) : Reads child (.operand child)
  | equals {token : Token} (htoken : token.is .operator "=") : Reads (.leaf token) .equals
  | augmented {child : Tree} (haugmented : child.rule? = some .augassign) :
      Reads child (.augmented child)

/-- A child of an expression statement is read as a part exactly when it has its form. -/
theorem readPart_eq_ok_iff {stmt child : Tree} {part : Part} :
    readPart stmt child = .ok part ↔ part.Reads child := by
  constructor
  · intro h
    unfold readPart at h
    split at h
    · obtain rfl := Except.ok.inj h
      exact .operand (Or.inl ‹_›)
    · obtain rfl := Except.ok.inj h
      exact .operand (Or.inr (Or.inl ‹_›))
    · obtain rfl := Except.ok.inj h
      exact .operand (Or.inr (Or.inr ‹_›))
    · obtain rfl := Except.ok.inj h
      exact .augmented ‹_›
    · simp at h
    · simp at h
    · split at h
      · rename_i hequals
        obtain ⟨token, rfl, htoken⟩ := Tree.isToken_iff.mp hequals
        obtain rfl := Except.ok.inj h
        exact .equals htoken
      · simp at h
  · intro h
    cases h with
    | operand hoperand =>
        rcases hoperand with hrule | hrule | hrule <;> simp [readPart, hrule]
    | equals htoken => simp [readPart, Tree.isToken, htoken]
    | augmented haugmented => simp [readPart, haugmented]

/-- The children of a statement are read exactly when every one of them is a
part. -/
theorem readParts_eq_ok_iff {stmt : Tree} {children : List Tree} {parts : List Part} :
    readParts stmt children = .ok parts ↔
      List.Forall₂ Part.Reads children parts := by
  induction children generalizing parts with
  | nil =>
      rw [readParts, List.forall₂_nil_left_iff]
      exact ⟨fun h => (Except.ok.inj h).symm, fun h => congrArg Except.ok h.symm⟩
  | cons child children ih =>
      rw [readParts, Lowered.bind_eq_ok, List.forall₂_cons_left_iff]
      constructor
      · rintro ⟨part, hpart, h⟩
        obtain ⟨rest, hrest, hresult⟩ := Lowered.bind_eq_ok.mp h
        exact ⟨part, rest, readPart_eq_ok_iff.mp hpart, ih.mp hrest, (Except.ok.inj hresult).symm⟩
      · rintro ⟨part, rest, hpart, hrest, rfl⟩
        refine ⟨part, readPart_eq_ok_iff.mpr hpart, ?_⟩
        rw [ih.mpr hrest]
        rfl

/-- An operand of a statement is a child with one of the rules of operands. -/
theorem Part.Reads.isOperand {child tree : Tree} (h : (Part.operand tree).Reads child) :
    tree = child ∧ child.IsOperand := by
  cases h with
  | operand hoperand => exact ⟨rfl, hoperand⟩

theorem Part.Reads.exists_equals {child : Tree} (h : Part.equals.Reads child) :
    ∃ token : Token, child = .leaf token ∧ token.is .operator "=" := by
  cases h with
  | equals htoken => exact ⟨_, rfl, htoken⟩

theorem Part.Reads.rule?_augmented {child tree : Tree} (h : (Part.augmented tree).Reads child) :
    tree = child ∧ child.rule? = some .augassign := by
  cases h with
  | augmented haugmented => exact ⟨rfl, haugmented⟩

/-- Three parts are read off three children. -/
theorem exists_children_of_reads {children : List Tree} {first second third : Part}
    (h : List.Forall₂ Part.Reads children [first, second, third]) :
    ∃ a b c, children = [a, b, c] ∧ first.Reads a ∧ second.Reads b ∧ third.Reads c := by
  obtain ⟨a, _, hfirst, htail, rfl⟩ := List.forall₂_cons_right_iff.mp h
  obtain ⟨b, _, hsecond, hlast, rfl⟩ := List.forall₂_cons_right_iff.mp htail
  obtain ⟨c, _, hthird, hnil, rfl⟩ := List.forall₂_cons_right_iff.mp hlast
  obtain rfl := List.forall₂_nil_right_iff.mp hnil
  exact ⟨a, b, c, rfl, hfirst, hsecond, hthird⟩

/-! ## Derivations of expression statements -/

/-- `LowersExprStmt stmt statement` when the children of `stmt` are those of
`statement`, in one of the three shapes that are kept. -/
inductive LowersExprStmt (stmt : Tree) : Statement → Prop
  | expression {value : Tree} {e : Expr} (hchildren : stmt.children = [value])
      (hoperand : value.IsOperand) (hvalue : lowerValue value = .ok e) :
      LowersExprStmt stmt (.expression e stmt.span)
  | assignment {target value : Tree} {equals : Token} {left right : Expr}
      (hchildren : stmt.children = [target, .leaf equals, value])
      (hequals : equals.is .operator "=") (htarget : target.IsOperand) (hvalue : value.IsOperand)
      (hleft : lowerTarget target = .ok left) (hright : lowerValue value = .ok right) :
      LowersExprStmt stmt (.assignment .assign left right stmt.span)
  | augmented {target augmented value : Tree} {operator : AssignmentOperator} {left right : Expr}
      (hchildren : stmt.children = [target, augmented, value])
      (haugmented : augmented.rule? = some .augassign)
      (htarget : target.IsOperand) (hvalue : value.IsOperand)
      (hleft : lowerTarget target = .ok left) (hoperator : lowerAugmented augmented = .ok operator)
      (hright : lowerValue value = .ok right) :
      LowersExprStmt stmt (.assignment operator left right stmt.span)

/-! ## Targets and values -/

/-- A target that is lowered is lowered as an expression. -/
theorem lowerExpression_of_lowerTarget {target : Tree} {e : Expr}
    (h : lowerTarget target = .ok e) : lowerExpression target = .ok e := by
  unfold lowerTarget at h
  split at h
  · split at h
    · simp at h
    · split at h
      · simp at h
      · exact h
    · simp at h
  · exact h

/-- A value that is lowered is a list with a single item. -/
theorem lowers_of_lowerValue {value : Tree} {e : Expr} (h : lowerValue value = .ok e) :
    Lowers .testlist value e := by
  unfold lowerValue at h
  split at h
  · simp at h
  · exact lowers_of_lowerAs h
  · exact lowers_of_lowerAs h
  · simp at h

/-- A yield is not lowered as a value. -/
theorem rule?_ne_yieldExpr_of_lowerValue {value : Tree} {e : Expr} (h : lowerValue value = .ok e) :
    value.rule? ≠ some .yieldExpr := by
  intro hyield
  rw [lowerValue, hyield] at h
  simp at h

/-- A successful run is a derivation. -/
theorem lowersExprStmt_of_lowerExprStmt {stmt : Tree} {statement : Statement}
    (h : lowerExprStmt stmt = .ok statement) : LowersExprStmt stmt statement := by
  obtain ⟨parts, hparts, h⟩ := Lowered.bind_eq_ok.mp h
  have hreads := readParts_eq_ok_iff.mp hparts
  split at h
  · obtain ⟨child, rest, hchild, hnil, hchildren⟩ := List.forall₂_cons_right_iff.mp hreads
    obtain rfl := List.forall₂_nil_right_iff.mp hnil
    obtain ⟨rfl, hoperand⟩ := hchild.isOperand
    obtain ⟨e, hvalue, hresult⟩ := Lowered.bind_eq_ok.mp h
    obtain rfl := Except.ok.inj hresult
    exact .expression hchildren hoperand hvalue
  · obtain ⟨a, b, c, hchildren, hfirst, hsecond, hthird⟩ := exists_children_of_reads hreads
    obtain ⟨rfl, htarget⟩ := hfirst.isOperand
    obtain ⟨token, rfl, hequals⟩ := hsecond.exists_equals
    obtain ⟨rfl, hvalue⟩ := hthird.isOperand
    obtain ⟨left, hleft, h⟩ := Lowered.bind_eq_ok.mp h
    obtain ⟨right, hright, hresult⟩ := Lowered.bind_eq_ok.mp h
    obtain rfl := Except.ok.inj hresult
    exact .assignment hchildren hequals htarget hvalue hleft hright
  · obtain ⟨a, b, c, hchildren, hfirst, hsecond, hthird⟩ := exists_children_of_reads hreads
    obtain ⟨rfl, htarget⟩ := hfirst.isOperand
    obtain ⟨rfl, haugmented⟩ := hsecond.rule?_augmented
    obtain ⟨rfl, hvalue⟩ := hthird.isOperand
    obtain ⟨left, hleft, h⟩ := Lowered.bind_eq_ok.mp h
    obtain ⟨operator, hoperator, h⟩ := Lowered.bind_eq_ok.mp h
    split at h
    · simp at h
    obtain ⟨right, hright, hresult⟩ := Lowered.bind_eq_ok.mp h
    obtain rfl := Except.ok.inj hresult
    exact .augmented hchildren haugmented htarget hvalue hleft hoperator hright
  · simp at h
  · simp at h

/-- Along a derivation lowering succeeds. -/
theorem LowersExprStmt.lowerExprStmt_eq_ok {stmt : Tree} {statement : Statement}
    (h : LowersExprStmt stmt statement) : lowerExprStmt stmt = .ok statement := by
  cases h with
  | expression hchildren hoperand hvalue =>
      have hparts : readParts stmt [_] = .ok _ :=
        readParts_eq_ok_iff.mpr (.cons (.operand hoperand) .nil)
      unfold lowerExprStmt
      rw [hchildren, hparts]
      simp [hvalue, bind, Except.bind, pure, Except.pure]
  | assignment hchildren hequals htarget hvalue hleft hright =>
      have hparts : readParts stmt [_, .leaf _, _] = .ok _ := readParts_eq_ok_iff.mpr
        (.cons (.operand htarget) (.cons (.equals hequals) (.cons (.operand hvalue) .nil)))
      unfold lowerExprStmt
      rw [hchildren, hparts]
      simp [hleft, hright, bind, Except.bind, pure, Except.pure]
  | augmented hchildren haugmented htarget hvalue hleft hoperator hright =>
      have hparts : readParts stmt [_, _, _] = .ok _ := readParts_eq_ok_iff.mpr
        (.cons (.operand htarget) (.cons (.augmented haugmented) (.cons (.operand hvalue) .nil)))
      have hyield := rule?_ne_yieldExpr_of_lowerValue hright
      unfold lowerExprStmt
      rw [hchildren, hparts]
      simp [hleft, hoperator, hyield, hright, bind, Except.bind, pure, Except.pure]

/-- Lowering an expression statement succeeds exactly along a derivation. -/
theorem lowerExprStmt_eq_ok_iff {stmt : Tree} {statement : Statement} :
    lowerExprStmt stmt = .ok statement ↔ LowersExprStmt stmt statement :=
  ⟨lowersExprStmt_of_lowerExprStmt, LowersExprStmt.lowerExprStmt_eq_ok⟩

/-! ## Lines -/

/-- A small statement that is lowered holds an expression statement. -/
theorem exists_exprStmt_of_lowerSmallStmt {small : Tree} {statement : Statement}
    (h : lowerSmallStmt small = .ok statement) :
    ∃ stmt, small.children = [stmt] ∧ stmt.rule? = some .exprStmt ∧
      LowersExprStmt stmt statement := by
  unfold lowerSmallStmt at h
  split at h
  · rename_i rule children span hchildren
    dsimp only at h
    split at h
    · exact ⟨_, hchildren, rfl, lowerExprStmt_eq_ok_iff.mp h⟩
    · split at h <;> simp at h
    · split at h <;> simp at h
  · simp at h

/-- Among the children of a line, the only small statement is found between
separators. -/
theorem exists_append_of_soleSmallStmt {line : Tree} {children : List Tree}
    {found : Option Tree} {small : Tree}
    (h : soleSmallStmt line found children = .ok (some small)) :
    (found = some small ∧ ∀ child ∈ children, isSeparator child) ∨
      (found = none ∧ small.rule? = some .smallStmt ∧
        ∃ before after, children = before ++ small :: after ∧
          (∀ child ∈ before, isSeparator child) ∧ ∀ child ∈ after, isSeparator child) := by
  induction children generalizing found with
  | nil =>
      rw [soleSmallStmt] at h
      exact Or.inl ⟨Except.ok.inj h, by simp⟩
  | cons child children ih =>
      rw [soleSmallStmt] at h
      split at h
      · rename_i hsmall
        split at h
        · simp at h
        rename_i hfound
        obtain rfl : found = none := by simpa using hfound
        rcases ih h with ⟨heq, hafter⟩ | ⟨heq, -⟩
        · obtain rfl := Option.some.inj heq
          exact Or.inr ⟨rfl, Tree.isNode_iff.mp hsmall, [], children, rfl, by simp, hafter⟩
        · contradiction
      · split at h
        · rename_i hseparator
          rcases ih h with ⟨heq, hafter⟩ | ⟨heq, hrule, before, after, rfl, hbefore, hafter⟩
          · exact Or.inl ⟨heq, List.forall_mem_cons.mpr ⟨hseparator, hafter⟩⟩
          · exact Or.inr ⟨heq, hrule, child :: before, after, rfl,
              List.forall_mem_cons.mpr ⟨hseparator, hbefore⟩, hafter⟩
        · simp at h

/-- A line that is lowered holds one expression statement between separators. -/
theorem exists_exprStmt_of_lowerSimpleStmt {line : Tree} {statement : Statement}
    (h : lowerSimpleStmt line = .ok statement) :
    line.rule? = some .simpleStmt ∧ ∃ before small after stmt,
      line.children = before ++ small :: after ∧ (∀ child ∈ before, isSeparator child) ∧
      (∀ child ∈ after, isSeparator child) ∧ small.rule? = some .smallStmt ∧
      small.children = [stmt] ∧ stmt.rule? = some .exprStmt ∧ LowersExprStmt stmt statement := by
  unfold lowerSimpleStmt at h
  split at h
  · rename_i hline
    obtain ⟨found, hfound, h⟩ := Lowered.bind_eq_ok.mp h
    split at h
    · rename_i small
      rcases exists_append_of_soleSmallStmt hfound with
        ⟨heq, -⟩ | ⟨-, hrule, before, after, hchildren, hbefore, hafter⟩
      · contradiction
      · obtain ⟨stmt, hsmall, hstmt, hlowers⟩ := exists_exprStmt_of_lowerSmallStmt h
        exact ⟨Tree.isNode_iff.mp hline, before, small, after, stmt, hchildren, hbefore, hafter,
          hrule, hsmall, hstmt, hlowers⟩
    · simp at h
  · simp at h

/-! ## Expressions on their own -/

/-- An expression on its own that is lowered is a list before nothing but
structural tokens. -/
theorem exists_testlist_of_lowerEvalInput {root : Tree} {e : Expr}
    (h : lowerEvalInput root = .ok e) :
    ∃ list rest, root.rule? = some .evalInput ∧ root.children = list :: rest ∧
      list.rule? = some .testlist ∧ checkEnd rest = .ok () ∧ Lowers .testlist list e := by
  unfold lowerEvalInput at h
  split at h
  · rename_i rule children span rest hchildren
    split at h
    · rename_i hshape
      rw [Bool.and_eq_true, Tree.isNode_iff] at hshape
      obtain ⟨_, hend, hlower⟩ := Lowered.bind_eq_ok.mp h
      obtain rfl : rule = .testlist := by simpa using hshape.2
      exact ⟨_, rest, hshape.1, hchildren, rfl, hend, lowers_of_lowerAs hlower⟩
    · simp at h
  · simp at h

end ScriptLowering
