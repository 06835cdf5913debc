import ScriptLowering.Proofs.FileDescent

/-!
# What lowering checks of the shape of a file

The grammar prescribes where the tokens of a file stand.  Lowering is more lenient:
it skips structural tokens and separators wherever they stand, it knows an
operator by its text alone, and it never looks below the node that holds the words
of an operator.  What it does check holds of every node that it reads.

Main results:

- Definition `Tree.MatchesGrammar`: the shape that the grammar prescribes.
- Theorem `lenientFile_not_matchesGrammar`: a file that is lowered and has that shape
  nowhere.
- Definition `Tree.PassesChecks`: what lowering checks of a node.
- Theorem `Lowers.allPassChecks`: everything that is read along a derivation passes
  the checks.
- Theorem `allPassChecks_of_lowered`: what is lowered as a file is one, and everything
  that is read of it passes the checks.
-/

namespace ScriptLowering

namespace Tree

/-! ## The shape that the grammar prescribes -/

/-- The children of a file: line breaks and statements, and the end marker. -/
def isFileBody : List Tree → Bool
  | [] => false
  | [.leaf endmarker] => endmarker.kind == .endmarker
  | .leaf newline :: rest => newline.kind == .newline && isFileBody rest
  | .node rule _ _ :: rest => rule == .stmt && isFileBody rest

/-- The children of a line: a small statement, a semicolon or none, and a line break. -/
def isLineBody : List Tree → Bool
  | [small, .leaf newline] => small.isNode .smallStmt && newline.kind == .newline
  | [small, .leaf semicolon, .leaf newline] =>
    small.isNode .smallStmt && semicolon.is .operator ";" && newline.kind == .newline
  | _ => false

/-- The operators of a chain: every other child, from the second on. -/
def chainOperators : List Tree → List Tree
  | _ :: operator :: rest => operator :: chainOperators rest
  | _ => []

/-- What may stand between the operands of a chain: an operator or a reserved word, and in a
comparison also a node with the words of an operator. -/
def isOperatorOf (rule : Rule) : Tree → Bool
  | .leaf token => token.kind == .operator || token.kind == .keyword
  | .node own _ _ => rule == .comparison && own == .compOp

/-- A tree is an operator. -/
def isOperatorToken : Tree → Bool
  | .leaf token => token.kind == .operator
  | .node _ _ _ => false

/-- The sign of a factor that has one. -/
def factorSign? : List Tree → Option Tree
  | [sign, _] => some sign
  | _ => none

/-- A file has the shape that the grammar prescribes, as far as its lines, its
assignments and its operators go. -/
structure MatchesGrammar (root : Tree) : Prop where
  file : isFileBody root.children
  line : ∀ part : Tree, part.IsPartOf root →
    part.rule? = some .simpleStmt → isLineBody part.children
  augassign : ∀ part : Tree, part.IsPartOf root → part.rule? = some .augassign → part.HoldsToken
  chain : ∀ part : Tree, part.IsPartOf root → ∀ rule ∈ part.rule?, rule.form = .chain →
    ∀ operator ∈ chainOperators part.children, operator.isOperatorOf rule
  factor : ∀ part : Tree, part.IsPartOf root → part.rule? = some .factor →
    ∀ sign ∈ factorSign? part.children, sign.isOperatorToken

end Tree

/-- An end marker before the first line and none after it, a semicolon before the small statement
and no line break after it, an augmented assignment operator before another token, a sign that is a
name, an operator that is a name, and the words of an operator outside a comparison, beside a line
and an augmented assignment operator without children. -/
def lenientFile : Tree :=
  let negated : Tree :=
    .ofChildren .factor [.leaf (.name "-"), (Tree.numeral "1").lift .factor]
  let product : Tree :=
    .ofChildren .term [negated, .leaf (.name "*"), (Tree.numeral "2").lift .factor]
  let plus : Tree :=
    .ofChildren .compOp
      [.ofChildren .simpleStmt [], .ofChildren .augassign [], .leaf (.operator "+")]
  let sum : Tree := .ofChildren .arithExpr [product, plus, (Tree.numeral "3").lift .term]
  let assignment : Tree :=
    .ofChildren .exprStmt
      [ .statementOperand (.identifier "a"),
        .ofChildren .augassign [.leaf (.operator "+="), .leaf (.name "b")],
        .testlist [sum] false]
  .ofChildren .fileInput
    [ .leaf .endmarker,
      .ofChildren .stmt
        [.ofChildren .simpleStmt [.leaf (.operator ";"), .smallStmt assignment]]]

/-- A file that is lowered need not have the shape that the grammar prescribes, in
none of its parts. -/
theorem lenientFile_not_matchesGrammar :
    (∃ program, lowerFileInput lenientFile = .ok program) ∧
      ¬ Tree.isFileBody lenientFile.children ∧
      (¬ ∀ part : Tree, part.IsPartOf lenientFile →
        part.rule? = some .simpleStmt → Tree.isLineBody part.children) ∧
      (¬ ∀ part : Tree, part.IsPartOf lenientFile →
        part.rule? = some .augassign → part.HoldsToken) ∧
      (¬ ∀ part : Tree, part.IsPartOf lenientFile → ∀ rule ∈ part.rule?, rule.form = .chain →
        ∀ operator ∈ Tree.chainOperators part.children, operator.isOperatorOf rule) ∧
      (¬ ∀ part : Tree, part.IsPartOf lenientFile → part.rule? = some .factor →
        ∀ sign ∈ Tree.factorSign? part.children, sign.isOperatorToken) ∧
      ¬ lenientFile.MatchesGrammar ∧
      (Tree.ofChildren .simpleStmt []).IsPartOf lenientFile ∧
      (Tree.ofChildren .augassign []).IsPartOf lenientFile := by
  have hfile : ¬ Tree.isFileBody lenientFile.children := by decide
  refine ⟨⟨_, rfl⟩, hfile, by decide, by decide, by decide, by decide, ?_, ?_, ?_⟩
  · exact fun h => hfile h.file
  · exact Tree.mem_parts_iff.mp (by decide)
  · exact Tree.mem_parts_iff.mp (by decide)

/-! ## What lowering checks -/

namespace Tree

/-- A tree is read of another one: it is that tree, or it is read of a child of a
node that is read for more than the texts of its tokens. -/
inductive IsReadIn (part : Tree) : Tree → Prop
  | refl : IsReadIn part part
  | child {rule : Rule} {children : List Tree} {span : Span} {child : Tree}
      (hcompOp : rule ≠ .compOp) (haugassign : rule ≠ .augassign) (hchild : child ∈ children)
      (hpart : part.IsReadIn child) : IsReadIn part (.node rule children span)

/-- What lowering checks of a node.  The children of a file are structural tokens
and statements.  A line holds one small statement among separators.  The first
token of an augmented assignment operator, the operators of a chain and the sign
of a factor are spelled like operators that a script has. -/
structure PassesChecks (tree : Tree) : Prop where
  file (hrule : tree.rule? = some .fileInput) : ∀ child ∈ tree.children,
    (∃ token : Token, child = .leaf token ∧ token.isStructural) ∨ child.rule? = some .stmt
  line (hrule : tree.rule? = some .simpleStmt) :
    ∃ before small after, tree.children = before ++ small :: after ∧
      small.rule? = some .smallStmt ∧ (∀ child ∈ before, isSeparator child) ∧
      ∀ child ∈ after, isSeparator child
  augassign (hrule : tree.rule? = some .augassign) :
    ∃ token rest, tree.childTokens = token :: rest ∧ token.text ∈ keptAssignments
  chain {rule : Rule} (hrule : tree.rule? = some rule) (hform : rule.form = .chain) :
    ∀ operator ∈ chainOperators tree.children,
      (operator.rule? = none ∨ operator.rule? = some .compOp) ∧
        ∃ connective ∈ rule.connectives, operator.tokenText = connective.spelling
  factor (hrule : tree.rule? = some .factor) : ∀ sign ∈ factorSign? tree.children,
    ∃ token : Token, sign = .leaf token ∧ (token.text = "+" ∨ token.text = "-")

/-- Everything that is read of a tree passes the checks. -/
def AllPassChecks (tree : Tree) : Prop :=
  ∀ part : Tree, part.IsReadIn tree → part.PassesChecks

/-- Nothing is checked of a tree that applies a rule without a check. -/
theorem passesChecks_of_rule? {tree : Tree} {rule : Rule} (hrule : tree.rule? = some rule)
    (hchain : rule.form ≠ .chain)
    (hother : rule ∉ [Rule.fileInput, .simpleStmt, .augassign, .factor]) : tree.PassesChecks where
  file h := absurd (by simp [Option.some.inj (hrule.symm.trans h)]) hother
  line h := absurd (by simp [Option.some.inj (hrule.symm.trans h)]) hother
  augassign h := absurd (by simp [Option.some.inj (hrule.symm.trans h)]) hother
  chain h hform := absurd (Option.some.inj (hrule.symm.trans h) ▸ hform) hchain
  factor h := absurd (by simp [Option.some.inj (hrule.symm.trans h)]) hother

theorem allPassChecks_leaf (token : Token) : (leaf token).AllPassChecks := by
  rintro part ⟨⟩
  exact ⟨nofun, nofun, nofun, nofun, nofun⟩

/-- What is read of a node passes the checks when the node does and everything that
is read of its children does. -/
theorem allPassChecks_node {rule : Rule} {children : List Tree} {span : Span}
    (hnode : (node rule children span).PassesChecks)
    (hchildren : ∀ child ∈ children, child.AllPassChecks) :
    (node rule children span).AllPassChecks := by
  intro part hpart
  cases hpart with
  | refl => exact hnode
  | child _ _ hchild hpart => exact hchildren _ hchild part hpart

/-- Nothing but the node itself is read of the words of an operator. -/
theorem allPassChecks_of_words {tree : Tree}
    (hrule : tree.rule? = some .compOp ∨ tree.rule? = some .augassign) (h : tree.PassesChecks) :
    tree.AllPassChecks := by
  intro part hpart
  cases hpart with
  | refl => exact h
  | child hcompOp haugassign =>
      rcases hrule with hrule | hrule
      · exact absurd (Option.some.inj hrule) hcompOp
      · exact absurd (Option.some.inj hrule) haugassign

end Tree

/-! ## Checks along a derivation -/

/-- The operators of a chain are those of its steps. -/
theorem chainOperators_cons (first : Tree) (steps : List ChainStep) :
    Tree.chainOperators (first :: steps.flatMap ChainStep.children) =
      steps.map ChainStep.operator := by
  induction steps generalizing first with
  | nil => rfl
  | cons step steps ih =>
      rw [List.flatMap_cons, ChainStep.children, List.cons_append, Tree.chainOperators,
        List.cons_append, List.nil_append, ih, List.map_cons]

/-- The operator of a chain is a token or holds the words of an operator, and it is
spelled like an operator that the rule of the chain keeps. -/
theorem operator_of_lowerConnective {rule : Rule} {operator : Tree} {connective : Connective}
    (h : lowerConnective rule operator = .ok connective) :
    (operator.rule? = none ∨ operator.rule? = some .compOp) ∧
      ∃ connective ∈ rule.connectives, operator.tokenText = connective.spelling := by
  obtain ⟨text, span, htext, hfound⟩ := lowerConnective_eq_ok_iff.mp h
  obtain ⟨hmem, hspelling⟩ := Rule.connective?_eq_some hfound
  cases operator with
  | leaf token =>
      obtain ⟨rfl, -⟩ := Prod.mk.inj (Except.ok.inj htext)
      exact ⟨Or.inl rfl, connective, hmem, by simp [Tree.tokenText, hspelling]⟩
  | node own children place =>
      rw [operatorText] at htext
      split at htext
      · rename_i hown
        obtain ⟨rfl, -⟩ := Prod.mk.inj (Except.ok.inj htext)
        exact ⟨Or.inr (congrArg some (eq_of_beq hown)), connective, hmem, hspelling.symm⟩
      · simp at htext

/-- An operator that is lowered passes all checks. -/
theorem allPassChecks_of_lowerConnective {rule : Rule} {operator : Tree} {connective : Connective}
    (h : lowerConnective rule operator = .ok connective) : operator.AllPassChecks := by
  obtain ⟨hnone | hwords, -⟩ := operator_of_lowerConnective h
  · cases operator with
    | leaf token => exact Tree.allPassChecks_leaf token
    | node own children place => contradiction
  · exact Tree.allPassChecks_of_words (Or.inl hwords)
      (Tree.passesChecks_of_rule? hwords (by decide) (by decide))

theorem text_of_sign? {text : String} {operator : UnaryOperator} (h : sign? text = some operator) :
    text = "+" ∨ text = "-" := by
  obtain ⟨rfl | rfl, hspelling⟩ := sign?_eq_some h
  · exact Or.inl hspelling.symm
  · exact Or.inr hspelling.symm

/-- A node of an expression passes the checks when its operators do. -/
theorem passesChecks_expression {rule : Rule} {children : List Tree} {span : Span}
    (hform : rule.form ≠ .foreign)
    (hchain : rule.form = .chain → ∀ operator ∈ Tree.chainOperators children,
      (operator.rule? = none ∨ operator.rule? = some .compOp) ∧
        ∃ connective ∈ rule.connectives, operator.tokenText = connective.spelling)
    (hfactor : ∀ sign ∈ Tree.factorSign? children, rule = .factor →
      ∃ token : Token, sign = .leaf token ∧ (token.text = "+" ∨ token.text = "-")) :
    (Tree.node rule children span).PassesChecks where
  file hrule := absurd (by rw [Option.some.inj hrule]; rfl) hform
  line hrule := absurd (by rw [Option.some.inj hrule]; rfl) hform
  augassign hrule := absurd (by rw [Option.some.inj hrule]; rfl) hform
  chain hrule hchained := by
    obtain rfl := Option.some.inj hrule
    exact hchain hchained
  factor hrule sign hsign := hfactor sign hsign (Option.some.inj hrule)

/-- Everything that is read along a derivation passes the checks. -/
theorem Lowers.allPassChecks {rule : Rule} {tree : Tree} {e : Expr} (h : Lowers rule tree e)
    (hown : tree.rule? = some rule) : tree.AllPassChecks := by
  induction h with
  | inner hinner hbelow _ ih =>
      obtain rfl := Option.some.inj hown
      apply Tree.allPassChecks_node
      · refine passesChecks_expression ?_ ?_ nofun
        · intro hform
          rw [hform] at hinner
          contradiction
        · intro hform
          rw [hform] at hinner
          contradiction
      · intro child hchild
        rw [List.mem_singleton.mp hchild]
        exact ih hbelow
  | @chain _ _ first _ _ steps hform _ hoperand _ hconnectives hoperands _ ihfirst ihrights =>
      obtain rfl := Option.some.inj hown
      apply Tree.allPassChecks_node
      · refine passesChecks_expression (by simp [hform]) ?_ ?_
        · intro _ operator hoperator
          rw [chainOperators_cons] at hoperator
          obtain ⟨step, hstep, rfl⟩ := List.mem_map.mp hoperator
          exact operator_of_lowerConnective (hconnectives step hstep)
        · rintro _ _ rfl
          contradiction
      · intro child hchild
        rcases List.mem_cons.mp hchild with rfl | hrest
        · exact ihfirst hoperand
        · obtain ⟨step, hstep, hmem⟩ := List.mem_flatMap.mp hrest
          rcases List.mem_cons.mp hmem with rfl | hright
          · exact allPassChecks_of_lowerConnective (hconnectives step hstep)
          · rw [List.mem_singleton.mp hright]
            exact ihrights step hstep (hoperands step hstep)
  | @negation _ _ word operand _ _ hform _ hoperand _ ih =>
      obtain rfl := Option.some.inj hown
      apply Tree.allPassChecks_node
      · refine passesChecks_expression (by simp [hform]) (by simp [hform]) ?_
        rintro _ _ rfl
        contradiction
      · intro child hchild
        rcases List.mem_cons.mp hchild with rfl | hrest
        · exact Tree.allPassChecks_leaf word
        · rw [List.mem_singleton.mp hrest]
          exact ih hoperand
  | @sign _ _ sign operand _ _ operator hform hsign hoperand _ ih =>
      obtain rfl := Option.some.inj hown
      apply Tree.allPassChecks_node
      · refine passesChecks_expression (by simp [hform]) (by simp [hform]) ?_
        intro first hfirst _
        obtain rfl := Option.some.inj hfirst
        exact ⟨sign, rfl, text_of_sign? hsign⟩
      · intro child hchild
        rcases List.mem_cons.mp hchild with rfl | hrest
        · exact Tree.allPassChecks_leaf sign
        · rw [List.mem_singleton.mp hrest]
          exact ih hoperand
  | @atom _ _ token _ _ hform _ =>
      obtain rfl := Option.some.inj hown
      apply Tree.allPassChecks_node
      · exact passesChecks_expression (by simp [hform]) (by simp [hform]) nofun
      · intro child hchild
        rw [List.mem_singleton.mp hchild]
        exact Tree.allPassChecks_leaf token

/-! ## Checks of statements and files -/

/-- The node of an augmented assignment operator passes the checks. -/
theorem passesChecks_of_lowerAugmented {augmented : Tree} {operator : AssignmentOperator}
    (h : lowerAugmented augmented = .ok operator) (hrule : augmented.rule? = some .augassign) :
    augmented.PassesChecks where
  file hfile := by rw [hrule] at hfile; contradiction
  line hline := by rw [hrule] at hline; contradiction
  augassign _ := by
    unfold lowerAugmented at h
    split at h
    · simp at h
    · rename_i token rest htokens
      split at h
      · rename_i found hfound
        have hkept : ∀ kept ∈ augmentedOperators, kept.symbol ∈ keptAssignments := by decide
        have hsymbol : found.symbol = token.text := by simpa using List.find?_some hfound
        exact ⟨token, rest, htokens, hsymbol ▸ hkept found (List.mem_of_find?_eq_some hfound)⟩
      · simp at h
  chain hchain hform := by
    obtain rfl := Option.some.inj (hrule.symm.trans hchain)
    contradiction
  factor hfactor := by rw [hrule] at hfactor; contradiction

/-- Everything that is read of an expression statement passes the checks. -/
theorem LowersExprStmt.allPassChecks {stmt : Tree} {statement : Statement}
    (h : LowersExprStmt stmt statement) (hrule : stmt.rule? = some .exprStmt) :
    stmt.AllPassChecks := by
  have htarget : ∀ {target : Tree} {e : Expr}, lowerTarget target = .ok e →
      target.AllPassChecks := by
    intro target e htarget
    obtain ⟨rule, hrule, hlowers⟩ := exists_lowers_of_lowerTarget htarget
    exact hlowers.allPassChecks hrule
  have hvalue : ∀ {value : Tree} {e : Expr}, lowerValue value = .ok e → value.AllPassChecks := by
    intro value e hvalue
    obtain ⟨rule, hrule, hlowers⟩ := exists_lowers_of_lowerValue hvalue
    exact hlowers.allPassChecks hrule
  rw [Tree.eq_node_of_rule? hrule]
  apply Tree.allPassChecks_node (Tree.passesChecks_of_rule? rfl (by decide) (by decide))
  intro child hchild
  cases h with
  | expression hchildren _ hright =>
      rw [hchildren, List.mem_singleton] at hchild
      rw [hchild]
      exact hvalue hright
  | @assignment _ _ equals _ _ hchildren _ _ _ hleft hright =>
      rw [hchildren] at hchild
      rcases List.mem_cons.mp hchild with rfl | hchild
      · exact htarget hleft
      rcases List.mem_cons.mp hchild with rfl | hchild
      · exact Tree.allPassChecks_leaf equals
      · rw [List.mem_singleton.mp hchild]
        exact hvalue hright
  | augmented hchildren haugmented _ _ hleft hoperator hright =>
      rw [hchildren] at hchild
      rcases List.mem_cons.mp hchild with rfl | hchild
      · exact htarget hleft
      rcases List.mem_cons.mp hchild with rfl | hchild
      · exact Tree.allPassChecks_of_words (Or.inr haugmented)
          (passesChecks_of_lowerAugmented hoperator haugmented)
      · rw [List.mem_singleton.mp hchild]
        exact hvalue hright

/-- A separator is a token. -/
theorem allPassChecks_of_isSeparator {tree : Tree} (h : isSeparator tree) :
    tree.AllPassChecks := by
  cases tree with
  | leaf token => exact Tree.allPassChecks_leaf token
  | node rule children span => contradiction

/-- Everything that is read of a statement of a file passes the checks. -/
theorem LowersStmt.allPassChecks {stmt : Tree} {statement : Statement}
    (h : LowersStmt stmt statement) : stmt.AllPassChecks := by
  cases h with
  | @line before after body _ span place spot hbefore hafter hrule hbody =>
      have hsmall : (Tree.node .smallStmt [body] spot).AllPassChecks := by
        apply Tree.allPassChecks_node (Tree.passesChecks_of_rule? rfl (by decide) (by decide))
        intro child hchild
        rw [List.mem_singleton.mp hchild]
        exact hbody.allPassChecks hrule
      have hline : (Tree.node .simpleStmt (before ++ .node .smallStmt [body] spot :: after)
          place).PassesChecks :=
        { file := nofun
          line := fun _ => ⟨before, _, after, rfl, rfl, hbefore, hafter⟩
          augassign := nofun
          chain := by
            rintro _ ⟨⟩
            nofun
          factor := nofun }
      apply Tree.allPassChecks_node (Tree.passesChecks_of_rule? rfl (by decide) (by decide))
      intro child hchild
      rw [List.mem_singleton.mp hchild]
      apply Tree.allPassChecks_node hline
      intro child hchild
      rcases List.mem_append.mp hchild with hchild | hchild
      · exact allPassChecks_of_isSeparator (hbefore child hchild)
      rcases List.mem_cons.mp hchild with rfl | hchild
      · exact hsmall
      · exact allPassChecks_of_isSeparator (hafter child hchild)

/-- The children of a file are structural tokens and statements, and everything that
is read of them passes the checks. -/
theorem LowersLines.forall_mem {lines : List Tree} {statements : List Statement}
    (h : LowersLines lines statements) : ∀ line ∈ lines,
      ((∃ token : Token, line = .leaf token ∧ token.isStructural) ∨ line.rule? = some .stmt) ∧
        line.AllPassChecks := by
  induction h with
  | nil => nofun
  | structural htoken _ ih =>
      exact List.forall_mem_cons.mpr ⟨⟨Or.inl ⟨_, rfl, htoken⟩, Tree.allPassChecks_leaf _⟩, ih⟩
  | stmt hstmt _ ih =>
      refine List.forall_mem_cons.mpr ⟨⟨Or.inr ?_, hstmt.allPassChecks⟩, ih⟩
      cases hstmt with
      | line => rfl

/-- What is lowered as a file is a file, and everything that is read of it passes the
checks. -/
theorem allPassChecks_of_lowered {root : Tree} {program : Program}
    (h : lowerFileInput root = .ok program) :
    root.rule? = some .fileInput ∧ root.AllPassChecks := by
  obtain ⟨hroot, hlines⟩ := lowerFileInput_eq_ok_iff.mp h
  refine ⟨hroot, ?_⟩
  rw [Tree.eq_node_of_rule? hroot]
  refine Tree.allPassChecks_node ?_ fun child hchild => (hlines.forall_mem child hchild).2
  exact
    { file := fun _ child hchild => (hlines.forall_mem child hchild).1
      line := nofun
      augassign := nofun
      chain := by
        rintro _ ⟨⟩
        nofun
      factor := nofun }

/-- The file that has the prescribed shape nowhere passes the checks. -/
theorem allPassChecks_lenientFile :
    ∃ program, lowerFileInput lenientFile = .ok program ∧
      lenientFile.rule? = some .fileInput ∧ lenientFile.AllPassChecks :=
  ⟨_, rfl, allPassChecks_of_lowered rfl⟩

end ScriptLowering
