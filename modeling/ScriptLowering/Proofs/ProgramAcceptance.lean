import ScriptLowering.Grammar.StatementForms
import ScriptLowering.Proofs.Acceptance
import ScriptLowering.Proofs.ProgramConformance
import ScriptLowering.Proofs.StatementDescent

/-!
# Acceptance of programs

A file is kept when every statement in it is a line with one small statement,
which is an expression statement with at most one assignment operator that a
script has.  On the files of the grammar lowering settles this condition: none
of the shapes that the grammar allows is a mismatch, so the operands alone
decide whether there is a syntax error.

Main results:

- Theorem `Tree.IsExprStmt.settles`: lowering an expression statement settles
  whether it is kept.
- Theorem `Tree.IsLine.settles`: lowering a line settles whether its only small
  statement is kept.
- Theorem `Tree.IsFile.settles`: lowering a file settles whether all of its statements
  are kept; `Tree.IsFile.settles_of_conforms` says so of the operands that the grammar of
  expressions gives.
- Theorem `Tree.IsFile.lowered_iff_kept`: a file is accepted exactly when all of its
  statements are kept, and is no syntax error when none of its operands is.
-/

namespace ScriptLowering

/-! ## Statements that are kept -/

/-- The spellings of the augmented assignment operators that a script has. -/
def keptAssignments : List String :=
  ["+=", "-=", "*=", "/="]

namespace Tree

/-- An expression statement that is kept: it has no annotation, at most one
equals sign or a single augmented assignment operator that a script has, and
each of its operands is lowered. -/
structure IsKeptExprStmt (stmt : Tree) : Prop where
  rule?_eq : stmt.rule? = some .exprStmt
  unannotated : ∀ child ∈ stmt.children, child.rule? ≠ some .annassign
  operators :
    (stmt.children.countP (·.isToken .operator "=") ≤ 1 ∧
        stmt.children.filter (·.isNode .augassign) = []) ∨
      ∃ augmented, stmt.children.filter (·.isNode .augassign) = [augmented] ∧
        augmented.tokenText ∈ keptAssignments
  operands : ∀ operand ∈ stmt.children, operand.IsOperand → ∃ e, lowerExpression operand = .ok e

/-- A small statement that is kept: its only child is an expression statement
that is kept. -/
def IsKeptSmallStmt (small : Tree) : Prop :=
  ∃ body, small.children = [body] ∧ body.IsKeptExprStmt

/-- A line that is kept: it holds one small statement, which is kept. -/
def IsKeptLine (line : Tree) : Prop :=
  ∃ small, line.children.filter (·.isNode .smallStmt) = [small] ∧ small.IsKeptSmallStmt

/-- A statement of a file that is kept: it is a line that is kept. -/
def IsKeptStmt (stmt : Tree) : Prop :=
  ∃ line, stmt.children = [line] ∧ line.rule? = some .simpleStmt ∧ line.IsKeptLine

/-- Lowering a tree as an expression is no syntax error. -/
def Parses (tree : Tree) : Prop :=
  ∀ failure, lowerExpression tree ≠ .error (.parse failure)

end Tree

/-! ## Operands -/

/-- A value after an equals sign is an operand. -/
theorem Tree.IsAssignedValue.isOperand {step : Tree × Tree} (h : IsAssignedValue step) :
    step.2.IsOperand :=
  h.rule?_eq.elim (fun hyield => Or.inr (Or.inr hyield)) Or.inl

/-- A result that is no syntax error settles whether it is a value. -/
theorem Settles.of_ne_parse {α : Type} {result : Lowered α}
    (h : ∀ failure, result ≠ .error (.parse failure)) :
    Settles (∃ a, result = .ok a) [] result := by
  match result with
  | .ok a => exact ⟨a, rfl⟩
  | .error (.unsupported error) => exact nofun
  | .error (.parse failure) => exact absurd rfl (h failure)

/-- A yield is refused. -/
theorem lowerExpression_yield {tree : Tree} (h : tree.rule? = some .yieldExpr) :
    lowerExpression tree = refuse .yieldExpressions tree.span := by
  rcases Tree.exists_node_of_rule? h with ⟨children, span, rfl⟩
  exact (Exit.refused rfl).lowerExpression_eq_error

/-- A list without items is a syntax error. -/
theorem lowerExpression_list_nil (span : Span) :
    lowerExpression (.node .testlistStarExpr [] span) =
      mismatch (.node .testlistStarExpr [] span) "at least one element" :=
  (Exit.noItem rfl).lowerExpression_eq_error

/-- A list with a starred item only is refused. -/
theorem lowerExpression_list_star {item : Tree} (span : Span) (h : item.rule? = some .starExpr) :
    lowerExpression (.node .testlistStarExpr [item] span) =
      refuse .starredExpressions item.span :=
  (Exit.starredItem rfl h).lowerExpression_eq_error

/-- A list of at least two children is refused. -/
theorem lowerExpression_list_many (first second : Tree) (rest : List Tree) (span : Span) :
    lowerExpression (.node .testlistStarExpr (first :: second :: rest) span) =
      refuse .tupleExpressions span :=
  (Exit.manyItems rfl).lowerExpression_eq_error

/-- What is refused as an expression may be refused for another reason. -/
theorem Settles.of_lowerExpression_eq_refuse {α : Type} {tree : Tree} {result : Lowered α}
    {construct construct' : Construct} {span span' : Span}
    (h : lowerExpression tree = ScriptLowering.refuse construct span)
    (hresult : result = ScriptLowering.refuse construct' span') :
    Settles (∃ e, lowerExpression tree = .ok e) [] result := by
  apply Settles.of_eq_refuse hresult
  rintro ⟨e, hlower⟩
  rw [h] at hlower
  contradiction

/-- A target settles whether it is lowered as an expression. -/
theorem lowerTarget_settles {target : Tree} (hrule : target.rule? = some .testlistStarExpr)
    (hparses : target.Parses) :
    Settles (∃ e, lowerExpression target = .ok e) [] (lowerTarget target) := by
  cases target with
  | leaf token => contradiction
  | node rule children span =>
      obtain rfl : rule = .testlistStarExpr := Option.some.inj hrule
      cases children with
      | nil => exact absurd (lowerExpression_list_nil span) (hparses _)
      | cons item rest =>
          cases rest with
          | nil =>
              by_cases hstar : item.isNode .starExpr
              · apply Settles.of_lowerExpression_eq_refuse
                · exact lowerExpression_list_star span (Tree.isNode_iff.mp hstar)
                · simp only [lowerTarget, Tree.children_node, hstar]
                  rfl
              · have htarget : lowerTarget (.node .testlistStarExpr [item] span) =
                    lowerExpression (.node .testlistStarExpr [item] span) := by
                  simp only [lowerTarget, Tree.children_node, hstar]
                  rfl
                rw [htarget]
                exact .of_ne_parse hparses
          | cons second rest =>
              apply Settles.of_lowerExpression_eq_refuse
              · exact lowerExpression_list_many item second rest span
              · rfl

/-- A value settles whether it is lowered as an expression. -/
theorem lowerValue_settles {value : Tree} (hoperand : value.IsOperand) (hparses : value.Parses) :
    Settles (∃ e, lowerExpression value = .ok e) [] (lowerValue value) := by
  have hlist : ∀ {rule : Rule}, value.rule? = some rule → rule.form = .list →
      lowerValue value = lowerTestlist value →
      Settles (∃ e, lowerExpression value = .ok e) [] (lowerValue value) := by
    intro rule hrule hform hvalue
    have hsame : lowerTestlist value = lowerExpression value := by
      rw [lowerExpression_of_rule? hrule]
      exact lowerAs_eq_of_form rfl hform value
    rw [hvalue, hsame]
    exact .of_ne_parse hparses
  rcases hoperand with hrule | hrule | hrule
  · exact hlist hrule rfl (by rw [lowerValue, hrule])
  · exact hlist hrule rfl (by rw [lowerValue, hrule])
  · exact .of_lowerExpression_eq_refuse (lowerExpression_yield hrule) (by rw [lowerValue, hrule])

/-- An augmented assignment operator settles whether a script has it. -/
theorem lowerAugmented_settles (operator : Token) (span : Span) :
    Settles (operator.text ∈ keptAssignments) []
      (lowerAugmented (.node .augassign [.leaf operator] span)) := by
  have hfound : ∀ kept : AssignmentOperator, kept ∈ augmentedOperators →
      kept.symbol ∈ keptAssignments := by decide
  have htokens : (Tree.node .augassign [.leaf operator] span).childTokens = [operator] := rfl
  unfold lowerAugmented
  rw [htokens]
  cases hfind : augmentedOperators.find? fun kept => kept.symbol == operator.text with
  | some kept =>
      have hsymbol : kept.symbol = operator.text := by simpa using List.find?_some hfind
      have hmem := hfound kept (List.mem_of_find?_eq_some hfind)
      rw [hsymbol] at hmem
      simpa [hfind] using Settles.ok hmem kept
  | none =>
      have hnone := List.find?_eq_none.mp hfind
      have hout : operator.text ∉ keptAssignments := by
        intro hmem
        have hsymbols : keptAssignments = augmentedOperators.map AssignmentOperator.symbol := rfl
        rw [hsymbols] at hmem
        obtain ⟨kept, hkept, hsymbol⟩ := List.mem_map.mp hmem
        exact hnone kept hkept (by simpa using hsymbol)
      simpa [hfind] using Settles.refuse hout (.operator operator.text) operator.span

/-! ## Expression statements -/

namespace Tree

section ExprStmt

variable {target value : Tree} {values : List (Tree × Tree)} {operator : Token}
  {span place : Span}

/-- A node is no token. -/
theorem isToken_of_rule? {tree : Tree} {rule : Rule} {kind : TokenKind} {text : String}
    (h : tree.rule? = some rule) : tree.isToken kind text = false := by
  cases tree with
  | leaf token => contradiction
  | node rule children span => rfl

/-- Equals signs stand between the operands of an assignment, and nowhere else. -/
theorem countP_equals (hvalues : ∀ step ∈ values, IsAssignedValue step) :
    (chainTail values).countP (·.isToken .operator "=") = values.length := by
  induction values with
  | nil => rfl
  | cons step values ih =>
      obtain ⟨hvalue, hrest⟩ := List.forall_mem_cons.mp hvalues
      have hnode : step.2.isToken .operator "=" = false :=
        hvalue.rule?_eq.elim isToken_of_rule? isToken_of_rule?
      have hstep : chainTail (step :: values) = step.1 :: step.2 :: chainTail values := rfl
      rw [hstep, List.countP_cons, List.countP_cons, ih hrest, hvalue.isToken, hnode]
      simp

/-- A target, an augmented assignment operator and a value are kept when all
three are. -/
theorem isKeptExprStmt_augmented_iff (hrule : target.rule? = some .testlistStarExpr)
    (hrule' : value.rule? = some .yieldExpr ∨ value.rule? = some .testlist) :
    (node .exprStmt [target, node .augassign [leaf operator] place, value] span).IsKeptExprStmt ↔
      (∃ e, lowerExpression target = .ok e) ∧ operator.text ∈ keptAssignments ∧
        ∃ e, lowerExpression value = .ok e := by
  have hvalue : value.rule? ≠ some .augassign ∧ value.rule? ≠ some .annassign := by
    rcases hrule' with h | h <;> simp [h]
  have hfilter : [target, node .augassign [leaf operator] place, value].filter
      (·.isNode .augassign) = [node .augassign [leaf operator] place] := by
    simp [isNode, hrule, hvalue.1]
  have htext : (node .augassign [leaf operator] place).tokenText = operator.text := by
    simp [tokenText]
  constructor
  · intro hkept
    refine ⟨hkept.operands target (by simp) (Or.inl hrule), ?_,
      hkept.operands value (by simp) (Or.inr hrule'.symm)⟩
    rcases hkept.operators with ⟨-, hnone⟩ | ⟨augmented, hsome, hspelling⟩
    · rw [children_node, hfilter] at hnone
      contradiction
    · rw [children_node, hfilter] at hsome
      rwa [← List.singleton_inj.mp hsome, htext] at hspelling
  · rintro ⟨htarget, hspelling, hlower⟩
    refine ⟨rfl, ?_, Or.inr ⟨_, hfilter, htext.symm ▸ hspelling⟩, ?_⟩
    · simp [hrule, hvalue.2]
    · simp [htarget, hlower, IsOperand]

/-- A target and values with equals signs between them are kept when there is at
most one value and all of them are lowered. -/
theorem isKeptExprStmt_assigned_iff (span : Span) (hrule : target.rule? = some .testlistStarExpr)
    (hvalues : ∀ step ∈ values, IsAssignedValue step) :
    (node .exprStmt (target :: chainTail values) span).IsKeptExprStmt ↔
      values.length ≤ 1 ∧ (∃ e, lowerExpression target = .ok e) ∧
        ∀ step ∈ values, ∃ e, lowerExpression step.2 = .ok e := by
  have hleaves : ∀ step ∈ values, ∃ token : Token, step.1 = leaf token := by
    intro step hstep
    obtain ⟨token, hleaf, -⟩ := isToken_iff.mp (hvalues step hstep).isToken
    exact ⟨token, hleaf⟩
  have hcount : (target :: chainTail values).countP (·.isToken .operator "=") =
      values.length := by
    rw [List.countP_cons_of_neg (by simp [isToken_of_rule? hrule])]
    exact countP_equals hvalues
  have hother : ∀ child ∈ target :: chainTail values,
      child.rule? ≠ some .annassign ∧ child.rule? ≠ some .augassign := by
    rw [List.forall_mem_cons, forall_mem_chainTail]
    refine ⟨by simp [hrule], ?_⟩
    intro step hstep
    obtain ⟨token, hleaf⟩ := hleaves step hstep
    rcases (hvalues step hstep).rule?_eq with h | h <;> simp [hleaf, h]
  have hfilter : (target :: chainTail values).filter (·.isNode .augassign) = [] := by
    rw [List.filter_eq_nil_iff]
    intro child hchild haugassign
    exact (hother child hchild).2 (isNode_iff.mp haugassign)
  constructor
  · intro hkept
    have hlower : ∀ child ∈ target :: chainTail values, child.IsOperand →
        ∃ e, lowerExpression child = .ok e := hkept.operands
    rw [List.forall_mem_cons, forall_mem_chainTail] at hlower
    refine ⟨?_, hlower.1 (Or.inl hrule), ?_⟩
    · rcases hkept.operators with ⟨hone, -⟩ | ⟨augmented, hsome, -⟩
      · rwa [children_node, hcount] at hone
      · rw [children_node, hfilter] at hsome
        contradiction
    · intro step hstep
      exact (hlower.2 step hstep).2 (hvalues step hstep).isOperand
  · rintro ⟨hone, htarget, hlower⟩
    refine ⟨rfl, fun child hchild => (hother child hchild).1, Or.inl ⟨hcount ▸ hone, hfilter⟩, ?_⟩
    rw [children_node, List.forall_mem_cons, forall_mem_chainTail]
    refine ⟨fun _ => htarget, ?_⟩
    intro step hstep
    obtain ⟨token, hleaf⟩ := hleaves step hstep
    refine ⟨?_, fun _ => hlower step hstep⟩
    intro hoperand
    rw [hleaf] at hoperand
    simp [IsOperand] at hoperand

end ExprStmt

end Tree

section ExprStmt

variable {target value : Tree} {values : List (Tree × Tree)} {span place : Span}

/-- An operand alone is lowered as a value. -/
theorem lowerExprStmt_of_value {stmt : Tree}
    (h : readParts stmt stmt.children = .ok [.operand value]) :
    lowerExprStmt stmt = lowerValue value >>= fun e => .ok (.expression e stmt.span) := by
  unfold lowerExprStmt
  rw [h]
  rfl

/-- An assignment is lowered target first. -/
theorem lowerExprStmt_of_assignment {stmt : Tree}
    (h : readParts stmt stmt.children = .ok [.operand target, .equals, .operand value]) :
    lowerExprStmt stmt = lowerTarget target >>= fun left =>
      lowerValue value >>= fun right => .ok (.assignment .assign left right stmt.span) := by
  unfold lowerExprStmt
  rw [h]
  rfl

/-- An augmented assignment is lowered target first, then its operator, and its value last. -/
theorem lowerExprStmt_of_augmented {stmt augmented : Tree}
    (h : readParts stmt stmt.children =
      .ok [.operand target, .augmented augmented, .operand value]) :
    lowerExprStmt stmt = lowerTarget target >>= fun left =>
      lowerAugmented augmented >>= fun operator =>
        if value.isNode .yieldExpr then refuse .augmentedYieldAssignment value.span
        else lowerValue value >>= fun right => .ok (.assignment operator left right stmt.span) := by
  unfold lowerExprStmt
  rw [h]
  rfl

/-- A chained assignment is refused before any operand is looked at. -/
theorem lowerExprStmt_of_chained {stmt second : Tree} {parts : List Part}
    (h : readParts stmt stmt.children =
      .ok (.operand target :: .equals :: .operand second :: .equals :: parts)) :
    lowerExprStmt stmt = refuse .chainedAssignments stmt.span := by
  unfold lowerExprStmt
  rw [h]
  rfl

/-- The operands of an assignment, and the equals signs between them, are read
as what they are. -/
theorem readParts_assigned (stmt : Tree) (htarget : target.IsOperand)
    (hvalues : ∀ step ∈ values, Tree.IsAssignedValue step) :
    readParts stmt (target :: Tree.chainTail values) =
      .ok (.operand target :: values.flatMap fun step => [.equals, .operand step.2]) := by
  rw [readParts_eq_ok_iff]
  refine .cons (.operand htarget) ?_
  induction values with
  | nil => exact .nil
  | cons step values ih =>
      obtain ⟨hvalue, hrest⟩ := List.forall_mem_cons.mp hvalues
      obtain ⟨token, hleaf, hequal⟩ := Tree.isToken_iff.mp hvalue.isToken
      have hpart : Part.equals.Reads step.1 := by
        rw [hleaf]
        exact .equals hequal
      exact .cons hpart (.cons (.operand hvalue.isOperand) (ih hrest))

/-- An assignment settles whether it is kept. -/
theorem assigned_settles (hrule : target.rule? = some .testlistStarExpr)
    (htarget : target.Parses) (hvalues : ∀ step ∈ values, Tree.IsAssignedValue step)
    (hparses : ∀ step ∈ values, step.2.Parses) :
    Settles (Tree.node .exprStmt (target :: Tree.chainTail values) span).IsKeptExprStmt []
      (lowerExprStmt (.node .exprStmt (target :: Tree.chainTail values) span)) := by
  have hoperand : target.IsOperand := Or.inl hrule
  have hkept := Tree.isKeptExprStmt_assigned_iff span hrule hvalues
  have hparts := readParts_assigned (.node .exprStmt (target :: Tree.chainTail values) span)
    hoperand hvalues
  cases values with
  | nil =>
      rw [lowerExprStmt_of_value hparts]
      refine ((lowerValue_settles hoperand htarget).map _).congr (hkept.trans ?_)
        (List.Subset.refl _)
      simp
  | cons step rest =>
      cases rest with
      | nil =>
          have hvalue := lowerValue_settles (hvalues step (by simp)).isOperand
            (hparses step (by simp))
          rw [lowerExprStmt_of_assignment hparts]
          refine ((lowerTarget_settles hrule htarget).bind fun left => hvalue.map _).congr
            (hkept.trans ?_) (List.Subset.refl _)
          simp
      | cons second rest =>
          rw [lowerExprStmt_of_chained hparts]
          apply Settles.refuse
          intro h
          have hlength := (hkept.mp h).1
          simp at hlength

/-- An augmented assignment settles whether it is kept. -/
theorem augmented_settles {operator : Token} (hrule : target.rule? = some .testlistStarExpr)
    (htarget : target.Parses)
    (hrule' : value.rule? = some .yieldExpr ∨ value.rule? = some .testlist)
    (hvalue : value.Parses) :
    Settles
      (Tree.node .exprStmt
        [target, .node .augassign [.leaf operator] place, value] span).IsKeptExprStmt []
      (lowerExprStmt
        (.node .exprStmt [target, .node .augassign [.leaf operator] place, value] span)) := by
  have hoperand : value.IsOperand := Or.inr hrule'.symm
  have haugmented : (Tree.node .augassign [.leaf operator] place).rule? = some .augassign := rfl
  have hparts : readParts
      (.node .exprStmt [target, .node .augassign [.leaf operator] place, value] span) _ = .ok _ :=
    readParts_eq_ok_iff.mpr (.cons (.operand (Or.inl hrule))
      (.cons (.augmented haugmented) (.cons (.operand hoperand) .nil)))
  have hassigned : ∀ (left : Expr) (kept : AssignmentOperator),
      Settles (∃ e, lowerExpression value = .ok e) []
        (if value.isNode .yieldExpr then refuse .augmentedYieldAssignment value.span
          else lowerValue value >>= fun right =>
            .ok (Statement.assignment kept left right span)) := by
    intro left kept
    by_cases hyield : value.isNode .yieldExpr
    · exact .of_lowerExpression_eq_refuse (lowerExpression_yield (Tree.isNode_iff.mp hyield))
        (if_pos hyield)
    · rw [if_neg hyield]
      exact (lowerValue_settles hoperand hvalue).map _
  rw [lowerExprStmt_of_augmented hparts]
  exact ((lowerTarget_settles hrule htarget).bind fun left =>
    (lowerAugmented_settles operator place).bind fun kept => hassigned left kept).congr
      (Tree.isKeptExprStmt_augmented_iff hrule hrule') (List.Subset.refl _)

/-- An annotated statement is refused. -/
theorem annotated_settles {annassign : Tree} (hrule : target.rule? = some .testlistStarExpr)
    (hannassign : annassign.rule? = some .annassign) :
    Settles (Tree.node .exprStmt [target, annassign] span).IsKeptExprStmt []
      (lowerExprStmt (.node .exprStmt [target, annassign] span)) := by
  have hrefuse : lowerExprStmt (.node .exprStmt [target, annassign] span) =
      refuse .annotatedAssignments span := by
    unfold lowerExprStmt
    rw [Tree.children_node, readParts, readParts, readPart, hrule, readPart, hannassign]
    rfl
  apply Settles.of_eq_refuse hrefuse
  intro hkept
  exact hkept.unannotated annassign (by simp) hannassign

end ExprStmt

/-- Lowering an expression statement of the grammar settles whether it is kept. -/
theorem Tree.IsExprStmt.settles {stmt : Tree} (h : stmt.IsExprStmt Parses) :
    Settles stmt.IsKeptExprStmt [] (lowerExprStmt stmt) := by
  cases h with
  | annotated hrule _ hannassign => exact annotated_settles hrule hannassign
  | augmented hrule htarget hrule' hvalue => exact augmented_settles hrule htarget hrule' hvalue
  | assigned hrule htarget hvalues hparses =>
      exact assigned_settles hrule htarget hvalues hparses

/-! ## Lines -/

theorem Tree.IsExprStmt.rule?_eq {Operand : Tree → Prop} {stmt : Tree}
    (h : stmt.IsExprStmt Operand) : stmt.rule? = some .exprStmt := by
  cases h <;> rfl

theorem Tree.IsSmallStmt.isNode {Operand : Tree → Prop} {small : Tree}
    (h : small.IsSmallStmt Operand) : small.isNode .smallStmt := by
  cases h <;> rfl

/-- A small statement that is an expression statement is lowered as such. -/
theorem lowerSmallStmt_exprStmt {body : Tree} {span : Span} (h : body.rule? = some .exprStmt) :
    lowerSmallStmt (.node .smallStmt [body] span) = lowerExprStmt body := by
  cases body with
  | leaf token => contradiction
  | node rule children place =>
      obtain rfl : rule = .exprStmt := Option.some.inj h
      rfl

/-- A flow statement is refused, whichever of them it is. -/
theorem lowerSmallStmt_flowStmt {rule : Rule} {children : List Tree} {span place place' : Span}
    (h : rule ∈ Rule.flowStatements) :
    ∃ construct, lowerSmallStmt
      (.node .smallStmt [.node .flowStmt [.node rule children place'] place] span) =
        refuse construct place := by
  simp only [Rule.flowStatements, List.mem_cons, List.not_mem_nil, or_false] at h
  rcases h with rfl | rfl | rfl | rfl | rfl <;> exact ⟨_, rfl⟩

/-- A small statement with a keyword of its own is refused, whichever of them it is. -/
theorem lowerSmallStmt_keyword {rule : Rule} {children : List Tree} {span place : Span}
    (h : rule ∈ Rule.keywordStatements) :
    ∃ construct, lowerSmallStmt (.node .smallStmt [.node rule children place] span) =
      refuse construct place := by
  simp only [Rule.keywordStatements, List.mem_cons, List.not_mem_nil, or_false] at h
  rcases h with rfl | rfl | rfl | rfl | rfl | rfl <;> exact ⟨_, rfl⟩

/-- A small statement is kept only if it holds an expression statement. -/
theorem Tree.not_isKeptSmallStmt {body : Tree} {span : Span} (h : body.rule? ≠ some .exprStmt) :
    ¬ (node .smallStmt [body] span).IsKeptSmallStmt := by
  rintro ⟨own, hchildren, hkept⟩
  obtain rfl : body = own := List.singleton_inj.mp hchildren
  exact h hkept.rule?_eq

/-- Lowering a small statement of the grammar settles whether it is kept. -/
theorem Tree.IsSmallStmt.settles {small : Tree} (h : small.IsSmallStmt Parses) :
    Settles small.IsKeptSmallStmt [] (lowerSmallStmt small) := by
  cases h with
  | @exprStmt body span hbody =>
      have hkept : (node .smallStmt [body] span).IsKeptSmallStmt ↔ body.IsKeptExprStmt := by
        simp [IsKeptSmallStmt]
      rw [lowerSmallStmt_exprStmt hbody.rule?_eq]
      exact hbody.settles.congr hkept (List.Subset.refl _)
  | flowStmt hrule =>
      obtain ⟨construct, hrefuse⟩ := lowerSmallStmt_flowStmt hrule
      exact .of_eq_refuse hrefuse (not_isKeptSmallStmt (by simp))
  | @keyword rule children span place hrule =>
      obtain ⟨construct, hrefuse⟩ := lowerSmallStmt_keyword hrule
      have hother : rule ≠ .exprStmt := by
        rintro rfl
        simp [Rule.keywordStatements] at hrule
      exact .of_eq_refuse hrefuse (not_isKeptSmallStmt (by simpa using hother))

/-- A separator is no small statement. -/
theorem isNode_of_isSeparator {child : Tree} {rule : Rule} (h : isSeparator child) :
    child.isNode rule = false := by
  cases child with
  | leaf token => rfl
  | node own children span => contradiction

/-- Nothing is found among separators. -/
theorem soleSmallStmt_separators {line : Tree} {found : Option Tree} {children : List Tree}
    (h : ∀ child ∈ children, isSeparator child) :
    soleSmallStmt line found children = .ok found := by
  induction children with
  | nil => rfl
  | cons child children ih =>
      have hchild : isSeparator child := h child (by simp)
      rw [soleSmallStmt, isNode_of_isSeparator hchild, if_pos hchild]
      exact ih fun other hother => h other (List.mem_cons_of_mem _ hother)

/-- Separators at the beginning of a line are skipped. -/
theorem soleSmallStmt_append {line : Tree} {found : Option Tree} {before : List Tree}
    (h : ∀ child ∈ before, isSeparator child) (rest : List Tree) :
    soleSmallStmt line found (before ++ rest) = soleSmallStmt line found rest := by
  induction before with
  | nil => rfl
  | cons child before ih =>
      obtain ⟨hchild, hbefore⟩ := List.forall_mem_cons.mp h
      rw [List.cons_append, soleSmallStmt, isNode_of_isSeparator hchild, if_pos hchild]
      exact ih hbefore

/-- A line with one small statement among separators is lowered as that statement. -/
theorem lowerSimpleStmt_of_separators {before after : List Tree} {small : Tree}
    (hbefore : ∀ child ∈ before, isSeparator child) (hsmall : small.isNode .smallStmt)
    (hafter : ∀ child ∈ after, isSeparator child) (span : Span) :
    lowerSimpleStmt (.node .simpleStmt (before ++ small :: after) span) = lowerSmallStmt small := by
  unfold lowerSimpleStmt
  rw [Tree.children_node, soleSmallStmt_append hbefore, soleSmallStmt, if_pos hsmall,
    soleSmallStmt_separators hafter]
  rfl

namespace Tree.IsLine

/-- A line is a small statement before separators, or begins with two small
statements. -/
theorem exists_cons {Operand : Tree → Prop} {children : List Tree} (h : IsLine Operand children) :
    ∃ small rest, children = small :: rest ∧ small.IsSmallStmt Operand ∧
      ((∀ child ∈ rest, isSeparator child) ∨
        ∃ semicolon second others, rest = semicolon :: second :: others ∧
          isSeparator semicolon ∧ second.isNode .smallStmt) := by
  induction h with
  | last hsmall hnewline =>
      refine ⟨_, _, rfl, hsmall, Or.inl ?_⟩
      simp [isSeparator, hnewline]
  | trailing hsmall hsemicolon hnewline =>
      refine ⟨_, _, rfl, hsmall, Or.inl ?_⟩
      simp [isSeparator, hsemicolon, hnewline]
  | cons hsmall hsemicolon _ ih =>
      obtain ⟨second, others, rfl, hsecond, -⟩ := ih
      refine ⟨_, _, rfl, hsmall, Or.inr ⟨_, second, others, rfl, ?_, hsecond.isNode⟩⟩
      simp [isSeparator, hsemicolon]

/-- Lowering a line of the grammar settles whether it is kept. -/
theorem settles {children : List Tree} {span : Span} (h : IsLine Parses children) :
    Settles (node .simpleStmt children span).IsKeptLine []
      (lowerSimpleStmt (.node .simpleStmt children span)) := by
  obtain ⟨small, rest, rfl, hsmall, hrest⟩ := h.exists_cons
  rcases hrest with hseparators | ⟨semicolon, second, others, rfl, hsemicolon, hsecond⟩
  · have hlower : lowerSimpleStmt (.node .simpleStmt (small :: rest) span) = lowerSmallStmt small :=
      lowerSimpleStmt_of_separators (List.forall_mem_nil _) hsmall.isNode hseparators span
    have hnone : rest.filter (·.isNode .smallStmt) = [] := by
      rw [List.filter_eq_nil_iff]
      intro child hchild
      simp [isNode_of_isSeparator (hseparators child hchild)]
    have hfilter : (small :: rest).filter (·.isNode .smallStmt) = [small] := by
      rw [List.filter_cons, hsmall.isNode, hnone]
      rfl
    have hkept : (node .simpleStmt (small :: rest) span).IsKeptLine ↔ small.IsKeptSmallStmt := by
      unfold IsKeptLine
      rw [children_node, hfilter]
      simp
    rw [hlower]
    exact hsmall.settles.congr hkept (List.Subset.refl _)
  · have hskip : ∀ line : Tree, soleSmallStmt line (some small) (semicolon :: second :: others) =
        refuse .multipleStatementsPerLine second.span := by
      intro line
      have hnext : soleSmallStmt line (some small) (second :: others) =
          refuse .multipleStatementsPerLine second.span := by
        rw [soleSmallStmt, hsecond]
        rfl
      rw [soleSmallStmt, isNode_of_isSeparator hsemicolon, hsemicolon, hnext]
      rfl
    have hlower : lowerSimpleStmt
        (.node .simpleStmt (small :: semicolon :: second :: others) span) =
          refuse .multipleStatementsPerLine second.span := by
      unfold lowerSimpleStmt
      rw [children_node, soleSmallStmt, if_pos hsmall.isNode, hskip]
      rfl
    have hfilter : (small :: semicolon :: second :: others).filter (·.isNode .smallStmt) =
        small :: second :: others.filter (·.isNode .smallStmt) := by
      rw [List.filter_cons, hsmall.isNode, List.filter_cons, isNode_of_isSeparator hsemicolon,
        List.filter_cons, hsecond]
      rfl
    apply Settles.of_eq_refuse hlower
    rintro ⟨sole, hsole, -⟩
    rw [children_node, hfilter] at hsole
    simp at hsole

end Tree.IsLine

/-! ## Files -/

/-- A compound statement is refused, whichever of them it is. -/
theorem refuseCompound_of_mem {rule : Rule} {children : List Tree} {place : Span} (span : Span)
    (h : rule ∈ Rule.compoundStatements) :
    ∃ construct, (refuseCompound (.node .compoundStmt [.node rule children place] span) :
      Lowered Statement) = refuse construct place := by
  have hall : ∀ rule ∈ Rule.compoundStatements, (Construct.ofCompoundRule? rule).isSome := by
    decide
  obtain ⟨construct, hconstruct⟩ := Option.isSome_iff_exists.mp (hall rule h)
  have hrule : (refuseCompound (.node .compoundStmt [.node rule children place] span) :
      Lowered Statement) = refuseCompoundRule (.node rule children place) := rfl
  refine ⟨construct, ?_⟩
  rw [hrule, refuseCompoundRule, Tree.rule?_node, Option.bind_some, hconstruct]
  rfl

/-- Lowering a statement of the grammar settles whether it is kept. -/
theorem Tree.IsStmt.settles {stmt : Tree} (h : stmt.IsStmt Parses) :
    Settles stmt.IsKeptStmt [] (lowerStmt stmt) := by
  cases h with
  | @simple children span place hline =>
      have hkept : (node .stmt [node .simpleStmt children place] span).IsKeptStmt ↔
          (node .simpleStmt children place).IsKeptLine := by
        simp [IsKeptStmt]
      exact hline.settles.congr hkept (List.Subset.refl _)
  | @compound rule children span place place' hrule =>
      obtain ⟨construct, hrefuse⟩ := refuseCompound_of_mem place hrule
      apply Settles.of_eq_refuse hrefuse
      rintro ⟨line, hchildren, hline, -⟩
      rw [← List.singleton_inj.mp hchildren] at hline
      simp at hline

theorem Tree.IsStmt.rule?_eq {Operand : Tree → Prop} {stmt : Tree} (h : stmt.IsStmt Operand) :
    stmt.rule? = some .stmt := by
  cases h <;> rfl

/-- Lowering the children of a file settles whether all statements among them
are kept. -/
theorem lowerLines_settles {lines : List Tree} {endmarker : Token}
    (hlines : ∀ line ∈ lines,
      (∃ newline : Token, line = .leaf newline ∧ newline.kind = .newline) ∨
        line.IsStmt Tree.Parses)
    (hend : endmarker.kind = .endmarker) :
    Settles (∀ line ∈ lines, line.rule? = some .stmt → line.IsKeptStmt) []
      (lowerLines (lines ++ [.leaf endmarker])) := by
  induction lines with
  | nil =>
      have hlower : lowerLines ([] ++ [.leaf endmarker]) = .ok [] := by
        simp [lowerLines, Token.isStructural, TokenKind.isStructural, hend]
      rw [hlower]
      exact .ok (by simp) _
  | cons line lines ih =>
      have hrest := ih fun other hother => hlines other (List.mem_cons_of_mem _ hother)
      rcases hlines line (by simp) with ⟨newline, rfl, hnewline⟩ | hstmt
      · have hlower : lowerLines (.leaf newline :: lines ++ [.leaf endmarker]) =
            lowerLines (lines ++ [.leaf endmarker]) := by
          rw [List.cons_append, lowerLines]
          simp [Token.isStructural, TokenKind.isStructural, hnewline]
        rw [hlower]
        exact hrest.congr (by simp) (List.Subset.refl _)
      · have hlower : lowerLines (line :: lines ++ [.leaf endmarker]) =
            lowerStmt line >>= fun statement =>
              lowerLines (lines ++ [.leaf endmarker]) >>= fun statements =>
                .ok (statement :: statements) := by
          cases hstmt <;> rfl
        rw [hlower]
        refine (hstmt.settles.bind fun statement => hrest.map _).congr ?_ (List.Subset.refl _)
        simp [hstmt.rule?_eq]

/-- Lowering a file of the grammar settles whether its statements are kept. -/
theorem Tree.IsFile.settles {root : Tree} (h : root.IsFile Parses) :
    Settles (∀ stmt ∈ root.children, stmt.rule? = some .stmt → stmt.IsKeptStmt) []
      (lowerFileInput root) := by
  cases h with
  | @intro lines endmarker span hlines hend =>
      have hlower : lowerFileInput (.node .fileInput (lines ++ [.leaf endmarker]) span) =
          lowerLines (lines ++ [.leaf endmarker]) >>= fun statements => .ok ⟨statements⟩ := rfl
      rw [hlower]
      refine ((lowerLines_settles hlines hend).map _).congr ?_ (List.Subset.refl _)
      rw [children_node, List.forall_mem_append, List.forall_mem_singleton]
      simp

/-- Lowering settles this of every file whose operands are yields, or expressions of the
grammar with numbers of the source language only: none of them is a syntax error. -/
theorem Tree.IsFile.settles_of_conforms {root : Tree}
    (h : root.IsFile fun operand => operand.rule? = some .yieldExpr ∨
      operand.Conforms ∧ ∀ token ∈ operand.tokens, token.kind = .number →
        IntegerLiteral.IsNumeral token.text) :
    Settles (∀ stmt ∈ root.children, stmt.rule? = some .stmt → stmt.IsKeptStmt) []
      (lowerFileInput root) := by
  refine (h.mono ?_).settles
  rintro operand (hyield | ⟨hconforms, hnumbers⟩) failure hfailure
  · rw [lowerExpression_yield hyield] at hfailure
    cases hfailure
  · have hsettles := hconforms.settles
    rw [hfailure] at hsettles
    obtain ⟨-, token, htoken, hkind, hnumeral, -⟩ := hsettles
    exact hnumeral (hnumbers token htoken hkind)

/-- A file of the grammar whose operands are no syntax errors is no syntax error
itself.  It is accepted exactly when every statement in it is a line with one
small statement, and that is an expression statement which is kept. -/
theorem Tree.IsFile.lowered_iff_kept {root : Tree} (h : root.IsFile Parses) :
    (∀ failure, lowerFileInput root ≠ .error (.parse failure)) ∧
      ((∃ program, lowerFileInput root = .ok program) ↔
        ∀ stmt ∈ root.children, stmt.rule? = some .stmt → stmt.IsKeptStmt) := by
  have hsettles := h.settles
  refine ⟨?_, hsettles.exists_ok_iff⟩
  intro failure hfailure
  rw [hfailure] at hsettles
  obtain ⟨-, token, htoken, -⟩ := hsettles
  contradiction

/-- A line break, and the line `a += b * 2;`. -/
def augmentedFile : Tree :=
  .file
    [ .leaf .newline,
      .ofChildren .stmt
        [.simpleStmt
          [.augmentedAssignment (.identifier "a") "+="
            (.chain .term (.identifier "b") [("*", .numeral "2")])]
          true]]

/-- The line is kept, and the semicolon at its end as well. -/
theorem lowered_augmentedFile : augmentedFile.IsFile Tree.Parses ∧
    (∃ program, lowerFileInput augmentedFile = .ok program) ∧
      ∀ stmt ∈ augmentedFile.children, stmt.rule? = some .stmt → stmt.IsKeptStmt := by
  have hfile : augmentedFile.IsFile Tree.Parses := by
    refine .intro ?_ rfl
    intro line hline
    rcases List.mem_pair.mp hline with rfl | rfl
    · exact Or.inl ⟨_, rfl, rfl⟩
    · exact Or.inr (.simple (.trailing (.exprStmt (.augmented rfl nofun (Or.inr rfl) nofun))
        (by decide) rfl))
  exact ⟨hfile, ⟨_, rfl⟩, hfile.lowered_iff_kept.2.mp ⟨_, rfl⟩⟩

end ScriptLowering
