import ScriptLowering.Lowering.Program
import ScriptLowering.Proofs.Conformance
import ScriptLowering.Proofs.Descent
import ScriptLowering.Proofs.StatementDescent
import ScriptLowering.Proofs.TokenConservation

/-!
# Where errors stand

Lowering has several dozen exits, and every one of them names a stretch of source.
It is always the stretch of a part of the tree: the node that was being read, one
of its children, or a token.  An operator that is refused is moreover written as
the error says.

Main results:

- Theorem `PointsInto.bind`: steps in sequence point into a tree when all of them
  do.
- Theorem `lowerAs_pointsInto`: the errors of lowering an expression point into
  its tree.
- Theorems `lowerFileInput_pointsInto`, `lowerSingleInput_pointsInto`,
  `lowerEvalInput_pointsInto`: so do those of the three entry points.
-/

namespace ScriptLowering

/-! ## Errors and trees -/

/-- An error points at a tree: it names the stretch of source of the tree, and an
operator that it refuses is the tree, a token or the words of a comparison
operator. -/
structure LoweringError.PointsAt (error : LoweringError) (part : Tree) : Prop where
  span_eq : error.span = part.span
  operator : ∀ symbol, error.construct? = some (.operator symbol) →
    (part.rule? = none ∨ part.rule? = some .compOp) ∧ part.tokenText = symbol

/-- An error that points at a part of a child points at a part of its parent. -/
theorem LoweringError.exists_part_of_child {error : LoweringError} {tree child : Tree}
    (hchild : child ∈ tree.children)
    (h : ∃ part : Tree, part.IsPartOf child ∧ error.PointsAt part) :
    ∃ part : Tree, part.IsPartOf tree ∧ error.PointsAt part := by
  rcases h with ⟨part, hpart, hpoints⟩
  exact ⟨part, hpart.of_mem hchild, hpoints⟩

/-- Every error of a result points at a part of a tree. -/
def PointsInto {α : Type} (tree : Tree) (result : Lowered α) : Prop :=
  ∀ error, result = .error error → ∃ part : Tree, part.IsPartOf tree ∧ error.PointsAt part

namespace PointsInto

variable {α β : Type} {tree child part : Tree}

theorem ok (a : α) : PointsInto tree (.ok a) :=
  nofun

/-- A mismatch points at the part that stands in the wrong place. -/
theorem mismatch (hpart : part.IsPartOf tree) (expected : String) :
    PointsInto tree (mismatch part expected : Lowered α) := by
  intro error herror
  obtain rfl := Except.error.inj herror
  exact ⟨part, hpart, rfl, nofun⟩

/-- A refusal points at the part that is refused; operators have a lemma of their own. -/
theorem refuse {construct : Construct} (hpart : part.IsPartOf tree)
    (hconstruct : ∀ symbol, construct ≠ .operator symbol) :
    PointsInto tree (refuse construct part.span : Lowered α) := by
  intro error herror
  obtain rfl := Except.error.inj herror
  refine ⟨part, hpart, rfl, ?_⟩
  intro symbol hsymbol
  exact absurd (Option.some.inj hsymbol) (hconstruct symbol)

theorem refuse_self {construct : Construct} (hconstruct : ∀ symbol, construct ≠ .operator symbol) :
    PointsInto tree (ScriptLowering.refuse construct tree.span : Lowered α) :=
  .refuse .refl hconstruct

/-- An operator that is refused is named as it is written. -/
theorem refuseOperator {symbol : String} (hpart : part.IsPartOf tree)
    (hrule : part.rule? = none ∨ part.rule? = some .compOp) (htext : part.tokenText = symbol) :
    PointsInto tree (ScriptLowering.refuse (.operator symbol) part.span : Lowered α) := by
  intro error herror
  obtain rfl := Except.error.inj herror
  refine ⟨part, hpart, rfl, ?_⟩
  intro own hown
  obtain rfl := Construct.operator.inj (Option.some.inj hown)
  exact ⟨hrule, htext⟩

/-- An operator that is a token is named by its text. -/
theorem refuseToken {token : Token} (hpart : (Tree.leaf token).IsPartOf tree) :
    PointsInto tree (ScriptLowering.refuse (.operator token.text) token.span : Lowered α) :=
  .refuseOperator hpart (Or.inl rfl) (by simp [Tree.tokenText])

/-- Steps in sequence point into a tree when all of them do. -/
theorem bind {first : Lowered α} {next : α → Lowered β} (h : PointsInto tree first)
    (hnext : ∀ a, first = .ok a → PointsInto tree (next a)) :
    PointsInto tree (first >>= next) := by
  cases first with
  | ok a => exact hnext a rfl
  | error error =>
      intro own hown
      exact h own (congrArg Except.error (Except.error.inj hown))

/-- What points into a child points into its parent. -/
theorem of_child {result : Lowered α} (h : PointsInto child result)
    (hchild : child ∈ tree.children) : PointsInto tree result :=
  fun error herror => error.exists_part_of_child hchild (h error herror)

end PointsInto

/-! ## Atoms and operators -/

/-- A number that has no value points at its atom. -/
theorem lowerNumber_pointsInto (text : String) (tree : Tree) :
    PointsInto tree (lowerNumber text tree.span) := by
  unfold lowerNumber
  split
  · exact .ok _
  · exact .refuse .refl (by simp)
  · exact .refuse .refl (by simp)
  · intro error herror
    obtain rfl := Except.error.inj herror
    exact ⟨tree, .refl, rfl, nofun⟩

/-- A token that is no literal points at its atom. -/
theorem lowerLiteral_pointsInto (atom : Tree) (token : Token) :
    PointsInto atom (lowerLiteral atom token) := by
  unfold lowerLiteral
  cases token.kind with
  | name => exact .ok _
  | number => exact lowerNumber_pointsInto token.text atom
  | string => exact .ok _
  | keyword =>
      dsimp only
      split
      · exact .ok _
      split
      · exact .ok _
      split
      · exact .refuse .refl (by simp)
      · exact .mismatch .refl _
  | operator =>
      dsimp only
      split
      · exact .refuse .refl (by simp)
      · exact .mismatch .refl _
  | newline => exact .mismatch .refl _
  | indent => exact .mismatch .refl _
  | dedent => exact .mismatch .refl _
  | endmarker => exact .mismatch .refl _

/-- A composite atom is no operator. -/
theorem compositeAtom?_ne_operator {first : Token} {children : List Tree} {construct : Construct}
    (h : compositeAtom? first children = some construct) (symbol : String) :
    construct ≠ .operator symbol := by
  rintro rfl
  unfold compositeAtom? at h
  repeat' split at h
  all_goals simp at h

/-- The errors of an atom point at it. -/
theorem lowerAtom_pointsInto (atom : Tree) : PointsInto atom (lowerAtom atom) := by
  unfold lowerAtom
  split
  · exact .bind (lowerLiteral_pointsInto atom _) fun _ _ => .ok _
  · split
    · rename_i hconstruct
      exact .refuse .refl (compositeAtom?_ne_operator hconstruct)
    · exact .mismatch .refl _
  · exact .mismatch .refl _

/-- A trailer is no operator. -/
theorem trailerConstruct?_ne_operator {trailer : Tree} {construct : Construct}
    (h : trailerConstruct? trailer = some construct) (symbol : String) :
    construct ≠ .operator symbol := by
  rintro rfl
  unfold trailerConstruct? at h
  repeat' split at h
  all_goals simp at h

/-- A node that holds no operator is pointed at. -/
theorem operatorText_pointsInto (operator : Tree) :
    PointsInto operator (operatorText operator) := by
  cases operator with
  | leaf token => exact .ok _
  | node rule children span =>
      simp only [operatorText]
      split
      · exact .ok _
      · exact .mismatch .refl _

/-- What is read as an operator is a token or holds the words of one. -/
theorem rule?_of_operatorText {operator : Tree} {written : String × Span}
    (h : operatorText operator = .ok written) :
    operator.rule? = none ∨ operator.rule? = some .compOp := by
  cases operator with
  | leaf token => exact Or.inl rfl
  | node rule children span =>
      simp only [operatorText] at h
      split at h
      · rename_i hrule
        exact Or.inr (congrArg some (beq_iff_eq.mp hrule))
      · simp at h

/-- An operator that its chain does not keep is pointed at. -/
theorem lowerConnective_pointsInto (rule : Rule) (operator : Tree) :
    PointsInto operator (lowerConnective rule operator) := by
  unfold lowerConnective
  refine .bind (operatorText_pointsInto operator) ?_
  rintro ⟨text, span⟩ hwritten
  rcases operatorText_eq_ok hwritten with ⟨rfl, rfl⟩
  dsimp only
  split
  · exact .ok _
  · exact .refuseOperator .refl (rule?_of_operatorText hwritten) rfl

/-- An operand of another rule is pointed at, and its chain when it is a token. -/
theorem checkOperand_pointsInto {rule : Rule} {chain operand : Tree}
    (h : operand ∈ chain.children) : PointsInto chain (checkOperand rule chain operand) := by
  unfold checkOperand
  split
  · split
    · exact .ok _
    · exact .mismatch (.of_mem h .refl) _
  · exact .mismatch .refl _

/-! ## Expressions -/

/-- A rule that is outside the subset as a whole is no operator. -/
theorem Rule.refused_ne_operator {rule : Rule} {construct : Construct}
    (h : rule.form = .refused construct) (symbol : String) : construct ≠ .operator symbol := by
  rintro rfl
  cases rule <;> simp [Rule.form] at h

/-- An operator that is refused at an exit is a token with this text. -/
theorem Exit.part_of_operator {rule : Rule} {tree part : Tree} {children : List Tree}
    {symbol : String} (h : Exit rule tree children part (.refusal (.operator symbol))) :
    part.rule? = none ∧ part.tokenText = symbol := by
  cases h with
  | foreignSign => simp [Tree.tokenText]
  | exponent => simp [Tree.tokenText]
  | trailer _ _ _ hconstruct => exact absurd rfl (trailerConstruct?_ne_operator hconstruct symbol)
  | refused hform => exact absurd rfl (Rule.refused_ne_operator hform symbol)

/-- The error of an exit points at the part that is blamed. -/
theorem Exit.pointsAt {rule : Rule} {tree part : Tree} {children : List Tree} {fault : Fault}
    (h : Exit rule tree children part fault) : (fault.errorAt part).PointsAt part := by
  cases fault with
  | mismatch expected => exact ⟨rfl, nofun⟩
  | refusal construct =>
      refine ⟨rfl, ?_⟩
      intro symbol hsymbol
      obtain rfl := Option.some.inj hsymbol
      exact ⟨Or.inl h.part_of_operator.1, h.part_of_operator.2⟩

/-- The error of a run that stops points at a part of the tree. -/
theorem Stops.exists_part {rule : Rule} {tree : Tree} {error : LoweringError}
    (h : Stops rule tree error) : ∃ part : Tree, part.IsPartOf tree ∧ error.PointsAt part := by
  induction h with
  | token token => exact ⟨_, .refl, rfl, nofun⟩
  | exit hexit =>
      refine ⟨_, ?_, hexit.pointsAt⟩
      rcases hexit.part_eq_or_mem with rfl | hmem
      · exact .refl
      · exact .of_mem hmem .refl
  | inner _ _ _ ih => exact LoweringError.exists_part_of_child (by simp) ih
  | firstRule _ _ _ hcheck => exact checkOperand_pointsInto (by simp) _ hcheck
  | first _ _ _ _ _ ih => exact LoweringError.exists_part_of_child (by simp) ih
  | operator hcomes hoperator =>
      have hpoints := lowerConnective_pointsInto _ _ _ hoperator
      exact LoweringError.exists_part_of_child (hcomes.subset (by simp)) hpoints
  | operandRule hcomes _ hcheck =>
      exact checkOperand_pointsInto (hcomes.subset (by simp)) _ hcheck
  | operand hcomes _ _ _ ih =>
      exact LoweringError.exists_part_of_child (hcomes.subset (by simp)) ih
  | negation _ _ _ _ ih => exact LoweringError.exists_part_of_child (by simp) ih
  | sign _ _ _ _ ih => exact LoweringError.exists_part_of_child (by simp) ih
  | atom _ hatom => exact lowerAtom_pointsInto _ _ hatom

/-- The errors of lowering an expression point into its tree. -/
theorem lowerAs_pointsInto (rule : Rule) (tree : Tree) : PointsInto tree (lowerAs rule tree) :=
  fun _ herror => (lowerAs_eq_error_iff.mp herror).exists_part

/-- So do the errors of lowering a node as its own rule. -/
theorem lowerExpression_pointsInto (tree : Tree) : PointsInto tree (lowerExpression tree) := by
  unfold lowerExpression
  split
  · exact lowerAs_pointsInto _ tree
  · exact .mismatch .refl _

/-! ## Statements -/

/-- The errors of the target of an assignment point into it. -/
theorem lowerTarget_pointsInto (target : Tree) : PointsInto target (lowerTarget target) := by
  unfold lowerTarget
  split
  · split
    · exact .mismatch .refl _
    · rename_i item hchildren
      split
      · exact .refuse (.of_mem (by simp [hchildren]) .refl) (by simp)
      · exact lowerExpression_pointsInto target
    · exact .refuse_self (by simp)
  · exact lowerExpression_pointsInto target

/-- The errors of the value of a statement point into it. -/
theorem lowerValue_pointsInto (value : Tree) : PointsInto value (lowerValue value) := by
  unfold lowerValue
  split
  · exact .refuse_self (by simp)
  · exact lowerAs_pointsInto .testlist value
  · exact lowerAs_pointsInto .testlist value
  · exact .mismatch .refl _

/-- An assignment operator outside the subset is the first token of its node. -/
theorem lowerAugmented_pointsInto (augmented : Tree) :
    PointsInto augmented (lowerAugmented augmented) := by
  unfold lowerAugmented
  split
  · exact .mismatch .refl _
  · rename_i token tokens htokens
    have htoken : token ∈ augmented.childTokens := by simp [htokens]
    have hleaf : .leaf token ∈ augmented.children := by
      rcases List.mem_filterMap.mp htoken with ⟨child, hchild, hown⟩
      cases child with
      | leaf own =>
          obtain rfl := Option.some.inj hown
          exact hchild
      | node rule children span => contradiction
    split
    · exact .ok _
    · exact .refuseToken (.of_mem hleaf .refl)

/-- A child that has no place in an expression statement points at the statement. -/
theorem readPart_pointsInto (stmt child : Tree) : PointsInto stmt (readPart stmt child) := by
  unfold readPart
  split
  · exact .ok _
  · exact .ok _
  · exact .ok _
  · exact .ok _
  · exact .refuse_self (by simp)
  · exact .mismatch .refl _
  · split
    · exact .ok _
    · exact .mismatch .refl _

/-- So does the first of several such children. -/
theorem readParts_pointsInto (stmt : Tree) (children : List Tree) :
    PointsInto stmt (readParts stmt children) := by
  induction children with
  | nil => exact .ok _
  | cons child children ih =>
      rw [readParts]
      exact .bind (readPart_pointsInto stmt child) fun _ _ => .bind ih fun _ _ => .ok _

/-- The operands and operators among the parts of a statement are children of it. -/
theorem mem_of_readParts {stmt : Tree} {children : List Tree} {parts : List Part}
    (h : readParts stmt children = .ok parts) {tree : Tree}
    (hpart : .operand tree ∈ parts ∨ .augmented tree ∈ parts) : tree ∈ children := by
  induction children generalizing parts with
  | nil =>
      obtain rfl := Except.ok.inj h
      simp at hpart
  | cons child children ih =>
      rcases Lowered.bind_eq_ok.mp h with ⟨part, hread, h⟩
      rcases Lowered.bind_eq_ok.mp h with ⟨rest, hrest, hresult⟩
      obtain rfl := Except.ok.inj hresult
      have hreads := readPart_eq_ok_iff.mp hread
      rcases hpart with hmem | hmem
      · rcases List.mem_cons.mp hmem with rfl | hmem
        · rw [hreads.isOperand.1]
          exact List.mem_cons_self
        · exact List.mem_cons_of_mem _ (ih hrest (Or.inl hmem))
      · rcases List.mem_cons.mp hmem with rfl | hmem
        · rw [hreads.rule?_augmented.1]
          exact List.mem_cons_self
        · exact List.mem_cons_of_mem _ (ih hrest (Or.inr hmem))

/-- The errors of an expression statement point into it. -/
theorem lowerExprStmt_pointsInto (stmt : Tree) : PointsInto stmt (lowerExprStmt stmt) := by
  unfold lowerExprStmt
  refine .bind (readParts_pointsInto stmt stmt.children) ?_
  intro parts hparts
  have hoperand : ∀ {tree : Tree}, .operand tree ∈ parts → tree ∈ stmt.children :=
    fun hmem => mem_of_readParts hparts (Or.inl hmem)
  have haugmented : ∀ {tree : Tree}, .augmented tree ∈ parts → tree ∈ stmt.children :=
    fun hmem => mem_of_readParts hparts (Or.inr hmem)
  split
  · rename_i value
    exact .bind ((lowerValue_pointsInto value).of_child (hoperand (by simp))) fun _ _ => .ok _
  · rename_i target value
    refine .bind ((lowerTarget_pointsInto target).of_child (hoperand (by simp))) fun _ _ => ?_
    exact .bind ((lowerValue_pointsInto value).of_child (hoperand (by simp))) fun _ _ => .ok _
  · rename_i target operator value
    have hvalue : value ∈ stmt.children := hoperand (by simp)
    refine .bind ((lowerTarget_pointsInto target).of_child (hoperand (by simp))) fun _ _ => ?_
    refine .bind ((lowerAugmented_pointsInto operator).of_child (haugmented (by simp)))
      fun _ _ => ?_
    split
    · exact .refuse (.of_mem hvalue .refl) (by simp)
    · exact .bind ((lowerValue_pointsInto value).of_child hvalue) fun _ _ => .ok _
  · exact .refuse_self (by simp)
  · exact .mismatch .refl _

/-- A small statement is no operator. -/
theorem Construct.ofSmallRule?_ne_operator {rule : Rule} {construct : Construct}
    (h : ofSmallRule? rule = some construct) (symbol : String) : construct ≠ .operator symbol := by
  rintro rfl
  cases rule <;> simp [ofSmallRule?] at h

/-- The errors of a small statement point into it. -/
theorem lowerSmallStmt_pointsInto (small : Tree) : PointsInto small (lowerSmallStmt small) := by
  unfold lowerSmallStmt
  split
  · rename_i rule children span hchildren
    have hbody : .node rule children span ∈ small.children := by simp [hchildren]
    refine PointsInto.of_child (?_ : PointsInto (.node rule children span) _) hbody
    dsimp only
    split
    · exact lowerExprStmt_pointsInto _
    · split
      · rename_i hconstruct
        rcases Option.bind_eq_some_iff.mp hconstruct with ⟨own, -, hown⟩
        exact .refuse_self (Construct.ofSmallRule?_ne_operator hown)
      · exact .mismatch .refl _
    · split
      · rename_i hconstruct
        exact .refuse_self (Construct.ofSmallRule?_ne_operator hconstruct)
      · exact .mismatch .refl _
  · exact .mismatch .refl _

/-- What is found among the children of a line is one of them, or was found before. -/
theorem soleSmallStmt_pointsInto {line : Tree} {children : List Tree} {found : Option Tree}
    (h : children ⊆ line.children) : PointsInto line (soleSmallStmt line found children) := by
  induction children generalizing found with
  | nil => exact .ok _
  | cons child children ih =>
      have hrest : children ⊆ line.children :=
        fun other hother => h (List.mem_cons_of_mem child hother)
      rw [soleSmallStmt]
      split
      · split
        · exact .refuse (.of_mem (h List.mem_cons_self) .refl) (by simp)
        · exact ih hrest
      · split
        · exact ih hrest
        · exact .mismatch .refl _

/-- The errors of a line point into it. -/
theorem lowerSimpleStmt_pointsInto (line : Tree) : PointsInto line (lowerSimpleStmt line) := by
  unfold lowerSimpleStmt
  split
  · refine .bind (soleSmallStmt_pointsInto (List.Subset.refl _)) ?_
    intro found hfound
    split
    · rename_i small
      have hsmall : small ∈ line.children := by
        rcases exists_append_of_soleSmallStmt hfound with
          ⟨hbefore, -⟩ | ⟨-, -, before, after, hchildren, -⟩
        · contradiction
        · simp [hchildren]
      exact (lowerSmallStmt_pointsInto small).of_child hsmall
    · exact .mismatch .refl _
  · exact .mismatch .refl _

/-! ## Entry points -/

/-- A compound statement is no operator. -/
theorem Construct.ofCompoundRule?_ne_operator {rule : Rule} {construct : Construct}
    (h : ofCompoundRule? rule = some construct) (symbol : String) :
    construct ≠ .operator symbol := by
  rintro rfl
  cases rule <;> simp [ofCompoundRule?] at h

section EntryPoints

variable {α : Type}

/-- A compound statement is refused where it stands. -/
theorem refuseCompoundRule_pointsInto (compound : Tree) :
    PointsInto compound (refuseCompoundRule compound : Lowered α) := by
  unfold refuseCompoundRule
  split
  · rename_i hconstruct
    rcases Option.bind_eq_some_iff.mp hconstruct with ⟨own, -, hown⟩
    exact .refuse_self (Construct.ofCompoundRule?_ne_operator hown)
  · exact .mismatch .refl _

/-- A compound statement within its node is refused where it stands. -/
theorem refuseCompound_pointsInto (stmt : Tree) :
    PointsInto stmt (refuseCompound stmt : Lowered α) := by
  unfold refuseCompound
  split
  · rename_i compound rest hnodes
    have hmem : compound ∈ stmt.childNodes := by simp [hnodes]
    have hchild : compound ∈ stmt.children := (List.mem_filter.mp hmem).1
    exact (refuseCompoundRule_pointsInto compound).of_child hchild
  · exact .mismatch .refl _

/-- A stray token is pointed at. -/
theorem refuseStray_pointsInto {tree : Tree} {token : Token} (h : .leaf token ∈ tree.children)
    (place : StrayPlace) : PointsInto tree (refuseStray token place : Lowered α) := by
  intro error herror
  obtain rfl := Except.error.inj herror
  exact ⟨.leaf token, .of_mem h .refl, rfl, nofun⟩

end EntryPoints

/-- The errors of a statement of a file point into it. -/
theorem lowerStmt_pointsInto (stmt : Tree) : PointsInto stmt (lowerStmt stmt) := by
  unfold lowerStmt
  split
  · split
    · rename_i rule children span hchildren
      have hinner : .node rule children span ∈ stmt.children := by simp [hchildren]
      refine PointsInto.of_child (?_ : PointsInto (.node rule children span) _) hinner
      dsimp only
      split
      · exact lowerSimpleStmt_pointsInto _
      · exact refuseCompound_pointsInto _
      · split
        · exact refuseCompoundRule_pointsInto _
        · exact .mismatch .refl _
    · exact .mismatch .refl _
  · exact .mismatch .refl _

/-- The lines of a file point into the file. -/
theorem lowerLines_pointsInto {root : Tree} {children : List Tree} (h : children ⊆ root.children) :
    PointsInto root (lowerLines children) := by
  induction children with
  | nil => exact .ok _
  | cons child children ih =>
      have hchild : child ∈ root.children := h List.mem_cons_self
      have hrest := ih fun other hother => h (List.mem_cons_of_mem child hother)
      cases child with
      | leaf token =>
          rw [lowerLines]
          split
          · exact hrest
          · exact refuseStray_pointsInto hchild _
      | node rule grandchildren span =>
          rw [lowerLines]
          refine .bind ((lowerStmt_pointsInto _).of_child hchild) fun _ _ => ?_
          exact .bind hrest fun _ _ => .ok _

/-- The errors of lowering a file point into it. -/
theorem lowerFileInput_pointsInto (root : Tree) : PointsInto root (lowerFileInput root) := by
  unfold lowerFileInput
  split
  · exact .bind (lowerLines_pointsInto (List.Subset.refl _)) fun _ _ => .ok _
  · exact .mismatch .refl _

/-- The errors of lowering an interactive input point into it. -/
theorem lowerSingleInput_pointsInto (root : Tree) : PointsInto root (lowerSingleInput root) := by
  unfold lowerSingleInput
  split
  · split
    · split
      · exact .ok _
      · exact .mismatch .refl _
    · rename_i rule children span hchildren
      have hline : .node rule children span ∈ root.children := by simp [hchildren]
      split
      · exact .bind ((lowerSimpleStmt_pointsInto _).of_child hline) fun _ _ => .ok _
      · exact .mismatch .refl _
    · rename_i stmt token hchildren
      have hstmt : stmt ∈ root.children := by simp [hchildren]
      split
      · exact (refuseCompound_pointsInto stmt).of_child hstmt
      · exact .mismatch .refl _
    · exact .mismatch .refl _
  · exact .mismatch .refl _

/-- What stands behind an expression that should end the input is pointed at. -/
theorem checkEnd_pointsInto {root : Tree} {children : List Tree} (h : children ⊆ root.children) :
    PointsInto root (checkEnd children) := by
  induction children with
  | nil => exact .ok _
  | cons child children ih =>
      have hchild : child ∈ root.children := h List.mem_cons_self
      cases child with
      | leaf token =>
          rw [checkEnd]
          split
          · exact ih fun other hother => h (List.mem_cons_of_mem _ hother)
          · exact refuseStray_pointsInto hchild _
      | node rule grandchildren span =>
          rw [checkEnd]
          exact .mismatch (.of_mem hchild .refl) _

/-- The errors of lowering an expression on its own point into its input. -/
theorem lowerEvalInput_pointsInto (root : Tree) : PointsInto root (lowerEvalInput root) := by
  unfold lowerEvalInput
  split
  · rename_i rule children span rest hchildren
    have hlist : .node rule children span ∈ root.children := by simp [hchildren]
    have hrest : rest ⊆ root.children := by simp [hchildren]
    split
    · refine .bind (checkEnd_pointsInto hrest) fun _ _ => ?_
      exact (lowerAs_pointsInto .testlist _).of_child hlist
    · exact .mismatch .refl _
  · exact .mismatch .refl _

end ScriptLowering
