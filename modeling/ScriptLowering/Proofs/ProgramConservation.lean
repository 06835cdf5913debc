import ScriptLowering.Proofs.FileDescent
import ScriptLowering.Proofs.TokenConservation

/-!
# Conservation of tokens in programs

Between its statements a file holds line breaks and the end marker, and a line
holds separators.  Every other token of a file that is lowered stands for
something: read in order, the tokens are the spelling of the program.  Only an
augmented assignment could lose tokens, because its operator is the first token
of its node.

Main results:

- Definition `Tree.content`: the tokens of a file, without what separates its
  statements.
- Theorem `LowersStmt.spelling_eq`: the content of a statement is the spelling of what it
  is lowered to.
- Theorem `map_text_content_eq_spelling`: the content of a file is the spelling of the
  program that it is lowered to.
- Theorem `spelling_ne_unseparated_lineInOperator`: more than the content would be lost if
  separators were left out wherever they stand.
-/

namespace ScriptLowering

namespace Tree

/-! ## The content of a file -/

/-- The tokens of a line without the separators among its children; of any other
tree, all tokens. -/
def lineContent : Tree → List Token
  | .node .simpleStmt children _ => (children.filter fun child => !isSeparator child).flatMap tokens
  | tree => tree.tokens

/-- The tokens of a child of a file: of a statement, without the separators of its
lines; of any other tree, all tokens but a structural token itself. -/
def stmtContent : Tree → List Token
  | .leaf token => if token.isStructural then [] else [token]
  | .node .stmt children _ => children.flatMap lineContent
  | tree => tree.tokens

/-- The tokens of a file, without the structural tokens among its children and the
separators among the children of its lines.  Whatever the words of an operator are
made of is kept. -/
def content (file : Tree) : List Token :=
  file.children.flatMap stmtContent

/-- The tokens of a tree that has children are theirs. -/
theorem tokens_of_children_eq_cons {tree first : Tree} {rest : List Tree}
    (h : tree.children = first :: rest) : tree.tokens = (first :: rest).flatMap tokens := by
  cases tree with
  | leaf token => contradiction
  | node rule children span =>
      obtain rfl : children = first :: rest := h
      exact tokens_node _ _ _

end Tree

/-! ## Statements -/

/-- The operator of an augmented assignment that holds a single token is spelled
like that token. -/
theorem map_text_tokens_augmented {augmented : Tree} {operator : AssignmentOperator}
    (h : lowerAugmented augmented = .ok operator) (hholds : augmented.HoldsToken) :
    augmented.tokens.map Token.text = [operator.symbol] := by
  obtain ⟨token, hchildren⟩ := hholds
  have hsymbol : operator.symbol = token.text := by
    have htokens : augmented.childTokens = [token] := by
      rw [Tree.childTokens, hchildren]
      rfl
    rw [lowerAugmented, htokens] at h
    dsimp only at h
    split at h
    · rename_i found hfound
      obtain rfl := Except.ok.inj h
      simpa using List.find?_some hfound
    · simp at h
  rw [Tree.tokens_of_children_eq_cons hchildren]
  simp [hsymbol]

/-- Along a derivation, the tokens of the tree are the spelling of the expression. -/
theorem Lowers.spelling_eq {rule : Rule} {tree : Tree} {e : Expr} (h : Lowers rule tree e) :
    tree.tokens.map Token.text = e.spelling := by
  rw [Expr.spelling_eq_map_lexemes]
  exact map_text_eq_of_forall₂ h.standsFor

/-- The tokens of an expression statement are the spelling of what it is lowered
to. -/
theorem LowersExprStmt.spelling_eq {stmt : Tree} {statement : Statement}
    (h : LowersExprStmt stmt statement)
    (haugassign : ∀ child ∈ stmt.children, child.rule? = some .augassign → child.HoldsToken) :
    stmt.tokens.map Token.text = statement.spelling := by
  cases h with
  | expression hchildren _ hvalue =>
      obtain ⟨_, -, hlowers⟩ := exists_lowers_of_lowerValue hvalue
      rw [Tree.tokens_of_children_eq_cons hchildren]
      simp [Statement.spelling, hlowers.spelling_eq]
  | @assignment _ _ equals _ _ hchildren hequals _ _ hleft hright =>
      obtain ⟨_, -, htarget⟩ := exists_lowers_of_lowerTarget hleft
      obtain ⟨_, -, hvalue⟩ := exists_lowers_of_lowerValue hright
      have hsymbol : equals.text = AssignmentOperator.assign.symbol := (Token.is_iff.mp hequals).2
      rw [Tree.tokens_of_children_eq_cons hchildren]
      simp [Statement.spelling, htarget.spelling_eq, hvalue.spelling_eq, hsymbol]
  | augmented hchildren hrule _ _ hleft hoperator hright =>
      obtain ⟨_, -, htarget⟩ := exists_lowers_of_lowerTarget hleft
      obtain ⟨_, -, hvalue⟩ := exists_lowers_of_lowerValue hright
      have hholds := haugassign _ (by simp [hchildren]) hrule
      rw [Tree.tokens_of_children_eq_cons hchildren]
      simp [Statement.spelling, htarget.spelling_eq, hvalue.spelling_eq,
        map_text_tokens_augmented hoperator hholds]

/-- The content of a statement is the spelling of what it is lowered to. -/
theorem LowersStmt.spelling_eq {stmt : Tree} {statement : Statement} (h : LowersStmt stmt statement)
    (haugassign : ∀ part : Tree, part.IsPartOf stmt → part.rule? = some .augassign →
      part.HoldsToken) :
    stmt.stmtContent.map Token.text = statement.spelling := by
  cases h with
  | @line before after body _ span place spot hbefore hafter hrule hbody =>
      have hnone : ∀ children : List Tree, (∀ child ∈ children, isSeparator child) →
          children.filter (fun child => !isSeparator child) = [] := by
        intro children hchildren
        rw [List.filter_eq_nil_iff]
        intro child hchild
        simp [hchildren child hchild]
      have hsmall : isSeparator (.node .smallStmt [body] spot) = false := rfl
      have hcontent : (Tree.node .stmt [.node .simpleStmt
          (before ++ .node .smallStmt [body] spot :: after) place] span).stmtContent =
            body.tokens := by
        simp [Tree.stmtContent, Tree.lineContent, hnone before hbefore, hnone after hafter, hsmall]
      rw [hcontent]
      apply hbody.spelling_eq
      intro child hchild
      apply haugassign
      have hsmallPart : child.IsPartOf (.node .smallStmt [body] spot) :=
        .child List.mem_cons_self (.of_mem hchild .refl)
      exact .child List.mem_cons_self (.child (by simp) hsmallPart)

/-! ## Files -/

/-- The content of the lines of a file is the spelling of their statements. -/
theorem LowersLines.spelling_eq {lines : List Tree} {statements : List Statement}
    (h : LowersLines lines statements)
    (haugassign : ∀ line ∈ lines, ∀ part : Tree, part.IsPartOf line →
      part.rule? = some .augassign → part.HoldsToken) :
    (lines.flatMap Tree.stmtContent).map Token.text = statements.flatMap Statement.spelling := by
  induction h with
  | nil => rfl
  | structural htoken _ ih =>
      rw [List.flatMap_cons, Tree.stmtContent, if_pos htoken, List.nil_append]
      exact ih (List.forall_mem_cons.mp haugassign).2
  | stmt hstmt _ ih =>
      obtain ⟨hfirst, hrest⟩ := List.forall_mem_cons.mp haugassign
      rw [List.flatMap_cons, List.flatMap_cons, List.map_append, hstmt.spelling_eq hfirst, ih hrest]

/-- Lowering a file loses, repeats and moves no token of its content, as long as
every augmented assignment has a single token for its operator. -/
theorem map_text_content_eq_spelling {root : Tree} {program : Program}
    (h : lowerFileInput root = .ok program)
    (haugassign : ∀ part : Tree, part.IsPartOf root → part.rule? = some .augassign →
      part.HoldsToken) :
    root.content.map Token.text = program.spelling := by
  obtain ⟨-, hlines⟩ := lowerFileInput_eq_ok_iff.mp h
  apply hlines.spelling_eq
  intro line hline part hpart
  exact haugassign part (.of_mem hline hpart)

/-- A blank line, an augmented assignment between two semicolons, and a negated difference that is
assigned. -/
def separatedFile : Tree :=
  .file
    [ .leaf .newline,
      .ofChildren .stmt
        [ .ofChildren .simpleStmt
            [ .leaf (.operator ";"),
              .smallStmt (.augmentedAssignment (.identifier "a") "+=" (.numeral "1")),
              .leaf (.operator ";"), .leaf .newline]],
      .statement (.assignment (.identifier "b")
        (.negation (.chain .arithExpr (.identifier "a") [("-", .numeral "2")])))]

/-- Of the tokens of that file only separators are left out. -/
theorem spelling_separatedFile :
    ∃ program, lowerFileInput separatedFile = .ok program ∧
      separatedFile.tokens.map Token.text =
        ["\n", ";", "a", "+=", "1", ";", "\n", "b", "=", "not", "a", "-", "2", "\n", ""] ∧
      program.spelling = ["a", "+=", "1", "b", "=", "not", "a", "-", "2"] ∧
      separatedFile.content.map Token.text = program.spelling :=
  ⟨_, rfl, by decide, by decide, map_text_content_eq_spelling rfl (by decide)⟩

/-! ## Separators wherever they stand -/

namespace Tree

/-- A child that separates statements where it stands: a structural token of a file, or a
separator of a line. -/
def separates (rule : Rule) : Tree → Bool
  | .leaf token =>
    rule == .fileInput && token.isStructural || rule == .simpleStmt && isSeparator (.leaf token)
  | .node _ _ _ => false

mutual

/-- The tokens of a tree without those that separate statements, in every file and every line
that is a part of the tree. -/
def unseparated : Tree → List Token
  | .leaf token => [token]
  | .node rule children _ => unseparatedOfAll rule children

/-- The tokens of the children of a node without those that separate statements. -/
def unseparatedOfAll (rule : Rule) : List Tree → List Token
  | [] => []
  | child :: children =>
    (if separates rule child then [] else unseparated child) ++ unseparatedOfAll rule children

end

end Tree

/-- A sum whose operator holds a line with a line break that is written as a plus sign. -/
def lineInOperator : Tree :=
  let plus : Tree :=
    .ofChildren .compOp [.ofChildren .simpleStmt [.leaf ⟨.newline, "+", .unplaced⟩]]
  .file
    [.statement
      (.ofChildren .arithExpr
        [(Tree.identifier "a").lift .term, plus, (Tree.identifier "b").lift .term])]

/-- The words of an operator are told by their texts alone, so the line break is an operator
of that file.  A line inside an operator keeps its separators. -/
theorem spelling_ne_unseparated_lineInOperator :
    ∃ program, lowerFileInput lineInOperator = .ok program ∧
      (∀ part : Tree, part.IsPartOf lineInOperator → part.rule? = some .augassign →
        part.HoldsToken) ∧
      program.spelling = ["a", "+", "b"] ∧
      lineInOperator.unseparated.map Token.text = ["a", "b"] ∧
      lineInOperator.unseparated.map Token.text ≠ program.spelling :=
  ⟨_, rfl, by decide, by decide, by decide, by decide⟩

end ScriptLowering
