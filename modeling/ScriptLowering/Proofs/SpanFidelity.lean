import ScriptLowering.Grammar.StatementForms
import ScriptLowering.Proofs.Placement
import ScriptLowering.Proofs.StatementDescent
import ScriptLowering.Proofs.TokenConservation

/-!
# Spans of accepted code

The span of a node is put together from its first and its last child, the span
of an operator from its operands, and the spans of tokens from the text that is
laid out.  All three agree on accepted trees: an expression stands exactly where
the tokens stand that it was lowered from.  Operators between its operands may
be buried under nodes without any place, but operands may not, and the first and
the last child of an accepted node are operands or prefix operators.

Main results:

- Theorem `Occupy.merge`: the span that covers two stretches of tokens covers
  everything between them.
- Theorem `Lowers.renders`: an expression stands in the text, where its tree
  stands.
- Theorem `standsIn_of_lowered_layout`: expressions and statements that are
  lowered from a tree that was laid out stand in its source.
-/

namespace ScriptLowering

/-! ## Expressions in a text -/

/-- An expression stands in a text: a literal cuts its raw text out, a prefix
operator begins no later than its argument and ends with it, and any other
operator begins with its left operand and ends with its right one, which does
not overlap the left. -/
def Expr.StandsIn (source : String) : Expr → Prop
  | .literal _ raw span =>
    Text.slice? source span.start.toNat span.stop.toNat = some raw
  | .unary _ argument span =>
    span.stop = argument.span.stop ∧ span.start ≤ argument.span.start ∧ argument.StandsIn source
  | .binary _ left right span =>
    span = ⟨left.span.start, right.span.stop⟩ ∧ left.span.stop ≤ right.span.start ∧
      left.StandsIn source ∧ right.StandsIn source
  | .logical _ left right span =>
    span = ⟨left.span.start, right.span.stop⟩ ∧ left.span.stop ≤ right.span.start ∧
      left.StandsIn source ∧ right.StandsIn source

/-- A statement stands in a text: an expression has the place of the statement,
and an assignment begins with its target and ends with its value. -/
def Statement.StandsIn (source : String) : Statement → Prop
  | .expression value span => span = value.span ∧ value.StandsIn source
  | .assignment _ target value span =>
    span = ⟨target.span.start, value.span.stop⟩ ∧ target.span.stop ≤ value.span.start ∧
      target.StandsIn source ∧ value.StandsIn source

/-- Joined operands stand in a text when both of them do, the left one before the right one. -/
theorem Expr.standsIn_node {source : String} {connective : Connective} {left right : Expr}
    {span : Span} :
    (connective.node left right span).StandsIn source ↔
      span = ⟨left.span.start, right.span.stop⟩ ∧ left.span.stop ≤ right.span.start ∧
        left.StandsIn source ∧ right.StandsIn source := by
  cases connective <;> exact Iff.rfl

/-! ## Stretches of tokens -/

/-- A span that lies no earlier at either end makes the other one longer at its
end only. -/
theorem Span.merge_of_le {a b : Span} (hstart : a.start ≤ b.start) (hstop : a.stop ≤ b.stop) :
    a.merge b = ⟨a.start, b.stop⟩ := by
  have hmin : min a.start b.start = a.start := if_pos hstart
  have hmax : max a.stop b.stop = b.stop := if_pos hstop
  rw [merge, hmin, hmax]

/-- Tokens occupy a stretch of the text: it begins with the first of them and
ends with the last. -/
structure Occupy (tokens : List Token) (span : Span) : Prop where
  start_eq : ∃ first ∈ tokens.head?, span.start = first.span.start
  stop_eq : ∃ last ∈ tokens.getLast?, span.stop = last.span.stop

namespace Occupy

variable {source : String} {tokens tokens' between : List Token} {a b : Span}

theorem singleton (token : Token) : Occupy [token] token.span :=
  ⟨⟨token, rfl, rfl⟩, ⟨token, rfl, rfl⟩⟩

/-- Tokens occupy one stretch only. -/
theorem unique (ha : Occupy tokens a) (hb : Occupy tokens b) : a = b := by
  obtain ⟨⟨first, hfirst, hstart⟩, last, hlast, hstop⟩ := ha
  obtain ⟨⟨first', hfirst', hstart'⟩, last', hlast', hstop'⟩ := hb
  obtain rfl : first = first' := Option.mem_unique hfirst hfirst'
  obtain rfl : last = last' := Option.mem_unique hlast hlast'
  cases a
  cases b
  simp_all

/-- Tokens with more tokens between them occupy everything from the first
stretch to the second. -/
theorem append (ha : Occupy tokens a) (hb : Occupy tokens' b) (between : List Token) :
    Occupy (tokens ++ between ++ tokens') ⟨a.start, b.stop⟩ := by
  obtain ⟨first, hfirst, hstart⟩ := ha.start_eq
  obtain ⟨last, hlast, hstop⟩ := hb.stop_eq
  constructor
  · refine ⟨first, ?_, hstart⟩
    rw [List.append_assoc]
    exact List.mem_head?_append_of_mem_head? hfirst
  · exact ⟨last, List.mem_getLast?_append_of_mem_getLast? hlast, hstop⟩

/-- Tokens in order end no earlier than they begin. -/
theorem start_le_stop (ha : Occupy tokens a) (hplace : InPlace source tokens) :
    a.start ≤ a.stop := by
  obtain ⟨first, hfirst, hstart⟩ := ha.start_eq
  obtain ⟨last, hlast, hstop⟩ := ha.stop_eq
  obtain ⟨rest, rfl⟩ : ∃ rest, tokens = first :: rest := List.head?_eq_some_iff.mp hfirst
  have hself := (hplace.standsIn first List.mem_cons_self).start_le_stop
  have hend := (hplace.standsIn last (List.mem_of_getLast? hlast)).start_le_stop
  rw [hstart, hstop]
  rcases List.mem_cons.mp (List.mem_of_getLast? hlast) with rfl | hrest
  · exact hself
  · have hafter : first.span.stop ≤ last.span.start :=
      (List.pairwise_cons.mp hplace.inOrder).1 last hrest
    exact UInt32.le_trans hself (UInt32.le_trans hafter hend)

/-- The second of two stretches in order begins no earlier than the first ends. -/
theorem stop_le_start (ha : Occupy tokens a) (hb : Occupy tokens' b)
    (hplace : InPlace source (tokens ++ tokens')) : a.stop ≤ b.start := by
  obtain ⟨last, hlast, hstop⟩ := ha.stop_eq
  obtain ⟨first, hfirst, hstart⟩ := hb.start_eq
  rw [hstop, hstart]
  exact (List.pairwise_append.mp hplace.inOrder).2.2 last (List.mem_of_getLast? hlast) first
    (List.mem_of_head? hfirst)

/-- Of two stretches in order with tokens between them, the second begins no
earlier than the first ends, and the span of both goes from the one to the
other. -/
theorem merge (ha : Occupy tokens a) (hb : Occupy tokens' b)
    (hplace : InPlace source (tokens ++ between ++ tokens')) :
    a.stop ≤ b.start ∧ a.merge b = ⟨a.start, b.stop⟩ ∧
      Occupy (tokens ++ between ++ tokens') (a.merge b) := by
  have hsublist : (tokens ++ tokens').Sublist (tokens ++ between ++ tokens') :=
    (List.sublist_append_left tokens between).append_right tokens'
  have hboth := hplace.sublist hsublist
  have horder := ha.stop_le_start hb hboth
  have hfirst := ha.start_le_stop (hboth.sublist (List.sublist_append_left _ _))
  have hsecond := hb.start_le_stop (hboth.sublist (List.sublist_append_right _ _))
  have hmerge : a.merge b = ⟨a.start, b.stop⟩ :=
    Span.merge_of_le (UInt32.le_trans hfirst horder) (UInt32.le_trans horder hsecond)
  exact ⟨horder, hmerge, hmerge ▸ ha.append hb between⟩

end Occupy

/-! ## Trees in a text -/

namespace Tree

/-- A tree stands where its tokens stand. -/
def Stands (tree : Tree) : Prop :=
  Occupy tree.tokens tree.span

/-- The tokens of a child stand in a text where those of its parent do. -/
theorem inPlace_child {source : String} {tree child : Tree} (hplace : InPlace source tree.tokens)
    (hchild : child ∈ tree.children) : InPlace source child.tokens := by
  cases tree with
  | leaf token => contradiction
  | node rule children span =>
      rw [tokens_node, List.flatMap_def] at hplace
      exact hplace.sublist (List.sublist_flatten_of_mem (List.mem_map_of_mem hchild))

/-- Children in order stand where the first and the last of them stand. -/
theorem occupy_cover {source : String} {children : List Tree} {first last : Tree}
    (hfirst : first ∈ children.head?) (hlast : last ∈ children.getLast?)
    (hplace : InPlace source (children.flatMap tokens)) (hstands : first.Stands)
    (hstands' : last.Stands) : Occupy (children.flatMap tokens) (cover children) := by
  have hcover : cover children = first.span.merge last.span := by
    rw [cover, Option.mem_def.mp hfirst, Option.mem_def.mp hlast]
  rw [hcover]
  obtain ⟨rest, rfl⟩ : ∃ rest, children = first :: rest := List.head?_eq_some_iff.mp hfirst
  rcases List.eq_nil_or_concat' rest with rfl | ⟨middle, final, rfl⟩
  · obtain rfl : first = last := by simpa using hlast
    simpa [Stands] using hstands
  · obtain rfl : final = last := by
      simpa [List.getLast?_cons] using hlast
    have htokens : (first :: (middle ++ [final])).flatMap tokens =
        first.tokens ++ middle.flatMap tokens ++ final.tokens := by simp
    rw [htokens] at hplace ⊢
    exact (hstands.merge hstands' hplace).2.2

end Tree

/-! ## Expressions along a derivation -/

/-- An expression stands in a text where the tree stands that it was lowered
from. -/
structure Renders (source : String) (tree : Tree) (e : Expr) : Prop where
  stands : tree.Stands
  span_eq : e.span = tree.span
  standsIn : e.StandsIn source

/-- Operands joined from left to right stand in the text, from the first to the
last, when all of them stand there in order. -/
theorem standsIn_joined {source : String} {tokens : List Token} {left : Expr}
    {steps : List ChainStep}
    (hplace : InPlace source (tokens ++ (steps.flatMap ChainStep.children).flatMap Tree.tokens))
    (hoccupy : Occupy tokens left.span) (hleft : left.StandsIn source)
    (hrights : ∀ step ∈ steps, Renders source step.operand step.right) :
    Occupy (tokens ++ (steps.flatMap ChainStep.children).flatMap Tree.tokens)
        (left.joined (steps.map ChainStep.joins)).span ∧
      (left.joined (steps.map ChainStep.joins)).StandsIn source := by
  induction steps generalizing tokens left with
  | nil => simpa using ⟨hoccupy, hleft⟩
  | cons step steps ih =>
      have hright := hrights step List.mem_cons_self
      have htokens : tokens ++ ((step :: steps).flatMap ChainStep.children).flatMap Tree.tokens =
          (tokens ++ step.operator.tokens ++ step.operand.tokens) ++
            (steps.flatMap ChainStep.children).flatMap Tree.tokens := by
        simp [ChainStep.children]
      rw [htokens] at hplace ⊢
      have hoperand : Occupy step.operand.tokens step.right.span := by
        rw [hright.span_eq]
        exact hright.stands
      obtain ⟨horder, hmerge, hjoin⟩ :=
        hoccupy.merge hoperand (hplace.sublist (List.sublist_append_left _ _))
      have happly : (step.connective.apply left step.right).StandsIn source := by
        rw [Connective.apply_eq_node]
        exact Expr.standsIn_node.mpr ⟨hmerge, horder, hleft, hright.standsIn⟩
      rw [← Connective.span_apply step.connective] at hjoin
      exact ih hplace hjoin happly fun other hother => hrights other (List.mem_cons_of_mem _ hother)

/-- A prefix operator and its operand stand from the start of the one to the end
of the other. -/
theorem Renders.prefixed {source : String} {own : Rule} {word : Token} {operand : Tree}
    {span : Span} {argument : Expr} {operator : UnaryOperator}
    (hspan : span = Tree.cover [.leaf word, operand])
    (hplace : InPlace source (Tree.node own [.leaf word, operand] span).tokens)
    (h : Renders source operand argument) :
    Renders source (.node own [.leaf word, operand] span) (.unary operator argument span) := by
  have htokens : (Tree.node own [.leaf word, operand] span).tokens =
      [word] ++ [] ++ operand.tokens := by simp
  rw [htokens] at hplace
  have hcover : span = word.span.merge operand.span := hspan
  obtain ⟨horder, hmerge, hoccupy⟩ := (Occupy.singleton word).merge h.stands hplace
  have hword := (hplace.standsIn word (by simp)).start_le_stop
  refine ⟨?_, rfl, ?_, ?_, h.standsIn⟩
  · rw [Tree.Stands, htokens, Tree.span_node, hcover]
    exact hoccupy
  · rw [hcover, hmerge, h.span_eq]
  · rw [hcover, hmerge, h.span_eq]
    exact UInt32.le_trans hword horder

/-- The last child of a chain is its first operand, when that is the only one,
or the operand of a step. -/
theorem exists_last_operand (first : Tree) (steps : List ChainStep) :
    ∃ last ∈ (first :: steps.flatMap ChainStep.children).getLast?,
      last = first ∨ ∃ step ∈ steps, last = step.operand := by
  rcases List.eq_nil_or_concat' steps with rfl | ⟨front, step, rfl⟩
  · exact ⟨first, rfl, Or.inl rfl⟩
  · refine ⟨step.operand, ?_, Or.inr ⟨step, by simp, rfl⟩⟩
    simp [ChainStep.children, List.getLast?_cons, List.getLast?_append]

/-- A chain stands in the text when its operands do. -/
theorem Renders.chain {source : String} {own : Rule} {first : Tree} {span : Span} {left : Expr}
    {steps : List ChainStep} (hspan : span = Tree.cover (first :: steps.flatMap ChainStep.children))
    (hplace : InPlace source
      (Tree.node own (first :: steps.flatMap ChainStep.children) span).tokens)
    (hfirst : Renders source first left)
    (hrights : ∀ step ∈ steps, Renders source step.operand step.right) :
    Renders source (.node own (first :: steps.flatMap ChainStep.children) span)
      (left.joined (steps.map ChainStep.joins)) := by
  rw [Tree.tokens_node] at hplace
  have hoccupy : Occupy first.tokens left.span := by
    rw [hfirst.span_eq]
    exact hfirst.stands
  obtain ⟨hjoined, hstands⟩ := standsIn_joined hplace hoccupy hfirst.standsIn hrights
  obtain ⟨last, hlast, hoperand⟩ := exists_last_operand first steps
  have hlastStands : last.Stands := by
    rcases hoperand with rfl | ⟨step, hstep, rfl⟩
    · exact hfirst.stands
    · exact (hrights step hstep).stands
  have hcover := Tree.occupy_cover rfl hlast hplace hfirst.stands hlastStands
  rw [← hspan] at hcover
  refine ⟨?_, hjoined.unique hcover, hstands⟩
  rw [Tree.Stands, Tree.tokens_node]
  exact hcover

/-- An expression stands in the text, where its tree stands, when the tokens of
the tree stand there in order and its nodes cover their children. -/
theorem Lowers.renders {source : String} {rule : Rule} {tree : Tree} {e : Expr}
    (h : Lowers rule tree e) (hplace : InPlace source tree.tokens) (hcovered : tree.Covered) :
    Renders source tree e := by
  induction h with
  | @inner _ _ own child span _ _ _ _ ih =>
      have hchild := ih (Tree.inPlace_child hplace List.mem_cons_self)
        (hcovered.child List.mem_cons_self)
      have hspan : span = child.span := by
        rw [hcovered .refl]
        exact Span.merge_self child.span
      refine ⟨?_, hchild.span_eq.trans hspan.symm, hchild.standsIn⟩
      rw [Tree.Stands, Tree.tokens_node, List.flatMap_singleton, Tree.span_node, hspan]
      exact hchild.stands
  | @chain _ _ first span left steps _ _ _ _ _ _ _ ihfirst ihrights =>
      have hfirst := ihfirst (Tree.inPlace_child hplace List.mem_cons_self)
        (hcovered.child List.mem_cons_self)
      refine .chain (hcovered .refl) hplace hfirst ?_
      intro step hstep
      have hmem : step.operand ∈ first :: steps.flatMap ChainStep.children :=
        List.mem_cons_of_mem first
          (List.mem_flatMap.mpr ⟨step, hstep, by simp [ChainStep.children]⟩)
      exact ihrights step hstep (Tree.inPlace_child hplace hmem) (hcovered.child hmem)
  | @negation _ _ word operand _ _ _ _ _ _ ih =>
      have hmem : operand ∈ [.leaf word, operand] := by simp
      exact .prefixed (hcovered .refl) hplace
        (ih (Tree.inPlace_child hplace hmem) (hcovered.child hmem))
  | @sign _ _ sign operand _ _ _ _ _ _ _ ih =>
      have hmem : operand ∈ [.leaf sign, operand] := by simp
      exact .prefixed (hcovered .refl) hplace
        (ih (Tree.inPlace_child hplace hmem) (hcovered.child hmem))
  | @atom _ own token span value _ _ =>
      have hspan : span = token.span := by
        rw [hcovered .refl]
        exact Span.merge_self token.span
      have htoken := (hplace.standsIn token (by simp)).slice?_eq
      refine ⟨?_, rfl, ?_⟩
      · simpa [Tree.Stands, hspan] using Occupy.singleton token
      · rw [hspan]
        exact htoken

/-! ## Statements -/

/-- A target and a value stand from the start of the one to the end of the other,
whatever is written between them. -/
theorem standsIn_assignment {source : String} {target middle value : Tree} {left right : Expr}
    {operator : AssignmentOperator}
    (hplace : InPlace source (target.tokens ++ middle.tokens ++ value.tokens))
    (hleft : Renders source target left) (hright : Renders source value right) :
    (Statement.assignment operator left right (Tree.cover [target, middle, value])).StandsIn
      source := by
  obtain ⟨horder, hmerge, -⟩ := hleft.stands.merge hright.stands hplace
  rw [← hleft.span_eq, ← hright.span_eq] at horder hmerge
  refine ⟨?_, horder, hleft.standsIn, hright.standsIn⟩
  rw [← hmerge, hleft.span_eq, hright.span_eq]
  rfl

/-- A statement stands in the text when the tokens of its tree stand there in
order and the nodes of the tree cover their children. -/
theorem LowersExprStmt.standsIn {source : String} {stmt : Tree} {statement : Statement}
    (h : LowersExprStmt stmt statement) (hplace : InPlace source stmt.tokens)
    (hcovered : stmt.Covered) : statement.StandsIn source := by
  have hrenders : ∀ {rule : Rule} {child : Tree} {e : Expr}, child ∈ stmt.children →
      Lowers rule child e → Renders source child e :=
    fun hchild hlowers => hlowers.renders (Tree.inPlace_child hplace hchild)
      (hcovered.child hchild)
  have hassignment : ∀ {target middle value : Tree} {left right : Expr}
      {operator : AssignmentOperator}, stmt.children = [target, middle, value] →
      lowerTarget target = .ok left → lowerValue value = .ok right →
      (Statement.assignment operator left right stmt.span).StandsIn source := by
    intro target middle value left right operator hchildren hleft hright
    obtain ⟨rule, -, htarget⟩ :=
      lowerExpression_eq_ok_iff.mp (lowerExpression_of_lowerTarget hleft)
    have htokens : stmt.tokens = target.tokens ++ middle.tokens ++ value.tokens := by
      cases stmt with
      | leaf token => contradiction
      | node rule children span =>
          obtain rfl : children = [target, middle, value] := hchildren
          simp
    rw [hcovered.span_eq (by simp [hchildren]), hchildren]
    rw [htokens] at hplace
    exact standsIn_assignment hplace (hrenders (by simp [hchildren]) htarget)
      (hrenders (by simp [hchildren]) (lowers_of_lowerValue hright))
  cases h with
  | @expression value e hchildren _ hvalue =>
      have hrendered := hrenders (by simp [hchildren]) (lowers_of_lowerValue hvalue)
      have hspan : stmt.span = value.span := by
        rw [hcovered.span_eq (by simp [hchildren]), hchildren]
        exact Span.merge_self value.span
      exact ⟨hspan.trans hrendered.span_eq.symm, hrendered.standsIn⟩
  | assignment hchildren _ _ _ hleft hright => exact hassignment hchildren hleft hright
  | augmented hchildren _ _ _ hleft _ hright => exact hassignment hchildren hleft hright

/-- What is lowered from a tree that was laid out stands in its source, as long
as the source is no longer than the largest offset.  An expression has the place
of the tree, and a statement that of its operands; a literal cuts its raw text
out of the source, and operators stand from their first operand to their last. -/
theorem standsIn_of_lowered_layout {tree : Tree}
    (hsize : tree.layout.source.utf8ByteSize ≤ Span.maxOffset) :
    (∀ e, lowerExpression tree.layout.root = .ok e →
        e.span = tree.layout.root.span ∧ e.StandsIn tree.layout.source) ∧
      ∀ statement, lowerSimpleStmt tree.layout.root = .ok statement →
        statement.StandsIn tree.layout.source := by
  have hplace := Tree.inPlace_layout hsize
  have hcovered := tree.covered_layout
  constructor
  · intro e h
    obtain ⟨rule, -, hlowers⟩ := lowerExpression_eq_ok_iff.mp h
    have hrendered := hlowers.renders hplace hcovered
    exact ⟨hrendered.span_eq, hrendered.standsIn⟩
  · intro statement h
    obtain ⟨-, before, small, after, stmt, hline, -, -, -, hsmall, -, hlowers⟩ :=
      exists_exprStmt_of_lowerSimpleStmt h
    have hmem : small ∈ tree.layout.root.children := by simp [hline]
    have hmem' : stmt ∈ small.children := by simp [hsmall]
    exact hlowers.standsIn (Tree.inPlace_child (Tree.inPlace_child hplace hmem) hmem')
      ((hcovered.child hmem).child hmem')

/-- An assignment of a string with an accented letter times a negated number. -/
def assignedProduct : Tree :=
  .simpleStmt
    [.assignment (.identifier "a")
      (.chain .term (.stringLiteral "\"é\"") [("*", .factor "-" (.numeral "2"))])]
    false

/-- The accented letter takes two bytes of the source, and what follows it
stands one byte further on. -/
theorem standsIn_assignedProduct :
    assignedProduct.layout.source = "a = \"é\" * - 2\n" ∧
      assignedProduct.layout.source.utf8ByteSize ≤ Span.maxOffset ∧
      ∃ statement, lowerSimpleStmt assignedProduct.layout.root = .ok statement ∧
        statement.span = ⟨0, 14⟩ ∧ statement.StandsIn assignedProduct.layout.source := by
  have hsize : assignedProduct.layout.source.utf8ByteSize ≤ Span.maxOffset := by decide
  exact ⟨by decide, hsize, _, rfl, rfl, (standsIn_of_lowered_layout hsize).2 _ rfl⟩

end ScriptLowering
