import ScriptLowering.Grammar.Spans
import ScriptLowering.Lowering.Program
import ScriptLowering.Proofs.Descent
import ScriptLowering.Script.Spans

/-!
# Moving a tree moves what is lowered from it

Lowering copies spans and merges them, and never looks at one to decide how to go
on.  When the spans of a tree are mapped by a function that keeps merges, what is
lowered from the tree changes in the same way, and so does the error that stops
it.

Main results:

- Theorem `Lowered.bind_moved`: steps in sequence move when all of them do.
- Theorem `lowerAs_mapSpans`: lowering an expression moves with its tree.
- Theorems `lowerSimpleStmt_mapSpans`, `lowerStmt_mapSpans`,
  `lowerFileInput_mapSpans`: so does lowering a line, a statement and a file.
- Theorems `lowerSingleInput_mapSpans`, `lowerEvalInput_mapSpans`: and so does
  lowering the other two entry points.
-/

namespace ScriptLowering

/-! ## Results at other places -/

/-- Maps the span of an error. -/
def LoweringError.mapSpan (f : Span → Span) : LoweringError → LoweringError
  | .unsupported error => .unsupported ⟨error.construct, f error.span⟩
  | .parse failure => .parse ⟨f failure.span, failure.fault⟩

/-- An error that is moved twice is moved by the composed map. -/
@[simp]
theorem LoweringError.mapSpan_mapSpan (f g : Span → Span) (error : LoweringError) :
    (error.mapSpan g).mapSpan f = error.mapSpan (f ∘ g) := by
  cases error <;> rfl

namespace Lowered

variable {α β γ δ : Type} {f : Span → Span} {g : α → β}

/-- Maps the span of an error, and what was lowered as `g` says. -/
def mapSpans (f : Span → Span) (g : α → β) : Lowered α → Lowered β
  | .ok a => .ok (g a)
  | .error error => .error (error.mapSpan f)

@[simp]
theorem mapSpans_ok (a : α) : mapSpans f g (.ok a) = .ok (g a) :=
  rfl

@[simp]
theorem mapSpans_error (error : LoweringError) :
    mapSpans f g (.error error) = .error (error.mapSpan f) :=
  rfl

@[simp]
theorem mapSpans_refuse (construct : Construct) (span : Span) :
    mapSpans f g (refuse construct span) = refuse construct (f span) :=
  rfl

/-- A mismatch moves with the tree that stands in the wrong place. -/
@[simp]
theorem mapSpans_mismatch (tree : Tree) (expected : String) :
    mapSpans f g (mismatch tree expected) = mismatch (tree.mapSpans f) expected := by
  simp [mismatch, ParseFailure.mismatch, LoweringError.mapSpan]

theorem mapSpans_mapSpans {f' : Span → Span} {g' : β → γ} (result : Lowered α) :
    (result.mapSpans f g).mapSpans f' g' = result.mapSpans (f' ∘ f) (g' ∘ g) := by
  cases result with
  | ok a => rfl
  | error error => simp

/-- Steps in sequence move when all of them do. -/
theorem bind_moved {g' : γ → δ} {first : Lowered α} {first' : Lowered β} {next : α → Lowered γ}
    {next' : β → Lowered δ} (hfirst : first' = first.mapSpans f g)
    (hnext : ∀ a, next' (g a) = (next a).mapSpans f g') :
    first' >>= next' = mapSpans f g' (first >>= next) := by
  rw [hfirst]
  cases first with
  | ok a => exact hnext a
  | error error => rfl

end Lowered

open Lowered

variable {f : Span → Span}

/-! ## Atoms and operators -/

/-- The value of a number does not depend on its place. -/
theorem lowerNumber_mapSpans (text : String) (span : Span) :
    lowerNumber text (f span) = (lowerNumber text span).mapSpans f id := by
  unfold lowerNumber
  split <;> rfl

/-- The value of a literal does not depend on its place. -/
theorem lowerLiteral_mapSpans (atom : Tree) (token : Token) :
    lowerLiteral (atom.mapSpans f) (token.mapSpan f) = (lowerLiteral atom token).mapSpans f id := by
  unfold lowerLiteral
  rw [Token.kind_mapSpan, Token.text_mapSpan, Tree.span_mapSpans]
  cases token.kind with
  | name => rfl
  | number => exact lowerNumber_mapSpans token.text atom.span
  | string => rfl
  | keyword =>
      dsimp only
      split
      · rfl
      split
      · rfl
      split
      · rfl
      · exact (mapSpans_mismatch _ _).symm
  | operator =>
      dsimp only
      split
      · rfl
      · exact (mapSpans_mismatch _ _).symm
  | newline => exact (mapSpans_mismatch _ _).symm
  | indent => exact (mapSpans_mismatch _ _).symm
  | dedent => exact (mapSpans_mismatch _ _).symm
  | endmarker => exact (mapSpans_mismatch _ _).symm

/-- What an atom of several children is does not depend on its place. -/
theorem compositeAtom?_mapSpans (first : Token) (children : List Tree) :
    compositeAtom? (first.mapSpan f) (children.map (Tree.mapSpans f)) =
      compositeAtom? first children := by
  have hstring : ∀ tree : Tree, isStringToken (tree.mapSpans f) = isStringToken tree := by
    intro tree
    cases tree <;> simp [isStringToken]
  simp [compositeAtom?, List.all_map, Function.comp_def, hstring]

/-- Lowering an atom moves with its tree. -/
theorem lowerAtom_mapSpans (atom : Tree) :
    lowerAtom (atom.mapSpans f) = (lowerAtom atom).mapSpans f (Expr.mapSpans f) := by
  unfold lowerAtom
  rw [Tree.children_mapSpans, Tree.span_mapSpans]
  rcases hchildren : atom.children with _ | ⟨first, rest⟩
  · exact (mapSpans_mismatch _ _).symm
  cases first with
  | node rule children span =>
      simp
  | leaf token =>
      rcases rest with _ | ⟨second, rest⟩
      · simp only [List.map_cons, List.map_nil, Tree.mapSpans_leaf]
        exact bind_moved (lowerLiteral_mapSpans atom token) fun _ => rfl
      · have hcomposite := compositeAtom?_mapSpans (f := f) token (.leaf token :: second :: rest)
        simp only [List.map_cons, Tree.mapSpans_leaf] at hcomposite ⊢
        rw [hcomposite]
        split
        · rfl
        · exact (mapSpans_mismatch _ _).symm

/-- What a trailer is does not depend on its place. -/
theorem trailerConstruct?_mapSpans (trailer : Tree) :
    trailerConstruct? (trailer.mapSpans f) = trailerConstruct? trailer := by
  unfold trailerConstruct?
  rw [Tree.firstToken?_mapSpans]
  cases trailer.firstToken? <;> rfl

/-- The text of an operator stays and its place moves. -/
theorem operatorText_mapSpans (operator : Tree) :
    operatorText (operator.mapSpans f) = (operatorText operator).mapSpans f (Prod.map id f) := by
  cases operator with
  | leaf token => simp [operatorText]
  | node rule children span =>
      have htext := Tree.tokenText_mapSpans f (.node rule children span)
      rw [Tree.mapSpans_node] at htext ⊢
      simp only [operatorText, htext]
      split
      · rfl
      · simp

/-- The connective of an operator does not depend on its place. -/
theorem lowerConnective_mapSpans (rule : Rule) (operator : Tree) :
    lowerConnective rule (operator.mapSpans f) = (lowerConnective rule operator).mapSpans f id := by
  unfold lowerConnective
  refine bind_moved (operatorText_mapSpans operator) ?_
  rintro ⟨text, span⟩
  dsimp only [Prod.map, id]
  split <;> rfl

/-- The check of an operand moves with its chain and the operand. -/
theorem checkOperand_mapSpans (rule : Rule) (chain operand : Tree) :
    checkOperand rule (chain.mapSpans f) (operand.mapSpans f) =
      (checkOperand rule chain operand).mapSpans f id := by
  unfold checkOperand
  rw [Tree.rule?_mapSpans]
  split
  · split
    · rfl
    · exact (mapSpans_mismatch _ _).symm
  · exact (mapSpans_mismatch _ _).symm

/-- Joining two operands moves with them. -/
theorem Connective.mapSpans_apply (hmerge : Span.KeepsMerges f) (connective : Connective)
    (left right : Expr) :
    (connective.apply left right).mapSpans f =
      connective.apply (left.mapSpans f) (right.mapSpans f) := by
  cases connective <;>
    simp [Connective.apply, Expr.ofBinary, Expr.ofLogical, Expr.mapSpans,
      hmerge left.span right.span]

/-! ## Exits -/

/-- A tree that is moved to a token is a token. -/
theorem Tree.exists_token_of_mapSpans {tree : Tree} {token : Token}
    (h : tree.mapSpans f = .leaf token) : ∃ own, tree = .leaf own ∧ own.mapSpan f = token := by
  cases tree with
  | leaf own =>
      rw [Tree.mapSpans_leaf] at h
      exact ⟨own, rfl, Tree.leaf.inj h⟩
  | node rule children span =>
      rw [Tree.mapSpans_node] at h
      contradiction

/-- Children that lowering goes down to after they were moved, it goes down to before. -/
theorem Descends.of_mapSpans {rule : Rule} {children : List Tree}
    (h : Descends rule (children.map (Tree.mapSpans f))) : Descends rule children := by
  generalize hmoved : children.map (Tree.mapSpans f) = moved at h
  cases h with
  | inner hinner hbelow =>
      rcases List.map_eq_singleton_iff.mp hmoved with ⟨child, rfl, rfl⟩
      rw [Tree.rule?_mapSpans] at hbelow
      exact .inner hinner hbelow
  | chain hform heven hshort =>
      rcases List.map_eq_cons_iff.mp hmoved with ⟨first, rest, rfl, rfl, rfl⟩
      rw [List.length_map] at heven hshort
      exact .chain hform heven hshort
  | negation hform hword hoperand =>
      rcases List.map_eq_cons_iff.mp hmoved with ⟨first, rest, rfl, hfirst, hrest⟩
      rcases List.map_eq_singleton_iff.mp hrest with ⟨operand, rfl, rfl⟩
      rcases Tree.exists_token_of_mapSpans hfirst with ⟨word, rfl, rfl⟩
      rw [Tree.rule?_mapSpans] at hoperand
      exact .negation hform hword hoperand
  | sign hform hsign hoperand =>
      rcases List.map_eq_cons_iff.mp hmoved with ⟨first, rest, rfl, hfirst, hrest⟩
      rcases List.map_eq_singleton_iff.mp hrest with ⟨operand, rfl, rfl⟩
      rcases Tree.exists_token_of_mapSpans hfirst with ⟨sign, rfl, rfl⟩
      rw [Tree.rule?_mapSpans] at hoperand
      exact .sign hform hsign hoperand
  | atom hform => exact .atom hform

/-- A factor with a token before it has one before it is moved. -/
theorem IsSigned.of_mapSpans {children : List Tree}
    (h : IsSigned (children.map (Tree.mapSpans f))) : IsSigned children := by
  rcases h with ⟨sign, operand, hmoved, hoperand⟩
  rcases List.map_eq_cons_iff.mp hmoved with ⟨first, rest, rfl, hfirst, hrest⟩
  rcases List.map_eq_singleton_iff.mp hrest with ⟨operand, rfl, rfl⟩
  rcases Tree.exists_token_of_mapSpans hfirst with ⟨sign, rfl, -⟩
  rw [Tree.rule?_mapSpans] at hoperand
  exact ⟨sign, operand, rfl, hoperand⟩

/-- A base with an exponent has one before it is moved. -/
theorem IsRaised.of_mapSpans {children : List Tree}
    (h : IsRaised (children.map (Tree.mapSpans f))) : IsRaised children := by
  rcases h with ⟨base, operator, exponent, hmoved, hbase, hexponent⟩
  rcases List.map_eq_cons_iff.mp hmoved with ⟨base, rest, rfl, rfl, hrest⟩
  rcases List.map_eq_cons_iff.mp hrest with ⟨second, rest, rfl, hsecond, hrest⟩
  rcases List.map_eq_singleton_iff.mp hrest with ⟨exponent, rfl, rfl⟩
  rcases Tree.exists_token_of_mapSpans hsecond with ⟨operator, rfl, -⟩
  rw [Tree.rule?_mapSpans] at hbase hexponent
  exact ⟨base, operator, exponent, rfl, hbase, hexponent⟩

/-- The error about a part moves with the part. -/
@[simp]
theorem Fault.mapSpan_errorAt (fault : Fault) (part : Tree) :
    (fault.errorAt part).mapSpan f = fault.errorAt (part.mapSpans f) := by
  cases fault <;> simp [errorAt, LoweringError.mapSpan, ParseFailure.mismatch]

/-- An exit moves with the node and with the part that is blamed. -/
theorem Exit.mapSpans {rule : Rule} {tree part : Tree} {children : List Tree} {fault : Fault}
    (h : Exit rule tree children part fault) :
    Exit rule (tree.mapSpans f) (children.map (Tree.mapSpans f)) (part.mapSpans f) fault := by
  cases h with
  | noItem hform => exact .noItem hform
  | starredItem hform hitem => exact .starredItem hform (by rw [Tree.rule?_mapSpans, hitem])
  | foreignItem hform hitem hother =>
      exact .foreignItem hform (by rw [Tree.rule?_mapSpans, hitem]) hother
  | tokenItem hform => exact .tokenItem hform
  | manyItems hform => exact .manyItems hform
  | noDisjunction hform => exact .noDisjunction hform
  | lambda hform hinner hlambda =>
      exact .lambda hform (by rw [Tree.rule?_mapSpans, hinner]) hlambda
  | foreignTest hform hinner hother =>
      exact .foreignTest hform (by rw [Tree.rule?_mapSpans, hinner]) hother
  | tokenTest hform => exact .tokenTest hform
  | conditional hform hbody => exact .conditional hform (by rwa [Tree.rule?_mapSpans])
  | malformedConditional hform hbody =>
      exact .malformedConditional hform (by rwa [Tree.rule?_mapSpans])
  | longComparison hrule hlong => exact .longComparison hrule (by rwa [List.length_map])
  | evenChain hform hshort heven =>
      exact .evenChain hform (by rwa [List.length_map]) (by rwa [List.length_map])
  | malformedNegation hform hother =>
      exact .malformedNegation hform fun hdescends => hother hdescends.of_mapSpans
  | foreignSign hform hoperand hsign =>
      exact .foreignSign hform (by rwa [Tree.rule?_mapSpans]) hsign
  | malformedFactor hform hother hunsigned =>
      exact .malformedFactor hform (fun hdescends => hother hdescends.of_mapSpans)
        fun hsigned => hunsigned hsigned.of_mapSpans
  | exponent hform hbase hexponent =>
      exact .exponent hform (by rwa [Tree.rule?_mapSpans]) (by rwa [Tree.rule?_mapSpans])
  | malformedPower hform hother hbase =>
      exact .malformedPower hform (fun hdescends => hother hdescends.of_mapSpans)
        fun hraised => hbase hraised.of_mapSpans
  | noAtom hform => exact .noAtom hform
  | await hform hword => exact .await hform hword
  | tokenAtom hform htoken => exact .tokenAtom hform htoken
  | foreignAtom hform hfirst hother =>
      exact .foreignAtom hform (by rw [Tree.rule?_mapSpans, hfirst]) hother
  | trailer hform hatom htrailer hconstruct =>
      exact .trailer hform (by rwa [Tree.rule?_mapSpans]) (by rwa [Tree.rule?_mapSpans])
        (by rwa [trailerConstruct?_mapSpans])
  | malformedTrailer hform hatom htrailer hconstruct =>
      exact .malformedTrailer hform (by rwa [Tree.rule?_mapSpans]) (by rwa [Tree.rule?_mapSpans])
        (by rwa [trailerConstruct?_mapSpans])
  | foreignTrailer hform hatom htrailer =>
      exact .foreignTrailer hform (by rwa [Tree.rule?_mapSpans]) (by rwa [Tree.rule?_mapSpans])
  | refused hform => exact .refused hform
  | foreign hform => exact .foreign hform

/-! ## Expressions -/

/-- Operands that are joined move with their parts. -/
theorem Expr.mapSpans_joined (hmerge : Span.KeepsMerges f) (left : Expr)
    (steps : List (Connective × Expr)) :
    (left.joined steps).mapSpans f =
      (left.mapSpans f).joined (steps.map fun step => (step.1, step.2.mapSpans f)) := by
  induction steps generalizing left with
  | nil => rfl
  | cons step steps ih =>
      rw [joined_cons, ih, step.1.mapSpans_apply hmerge]
      rfl

/-- Maps the spans of a step of a chain. -/
def ChainStep.mapSpans (f : Span → Span) (step : ChainStep) : ChainStep :=
  ⟨step.operator.mapSpans f, step.operand.mapSpans f, step.connective, step.right.mapSpans f⟩

/-- The children of steps move with the steps. -/
theorem ChainStep.map_mapSpans_children (steps : List ChainStep) :
    (steps.flatMap children).map (Tree.mapSpans f) =
      (steps.map (ChainStep.mapSpans f)).flatMap children := by
  rw [List.map_flatMap, List.flatMap_map]
  rfl

/-- What steps join moves with the steps. -/
theorem ChainStep.map_joins_mapSpans (steps : List ChainStep) :
    (steps.map (ChainStep.mapSpans f)).map joins =
      (steps.map joins).map fun step => (step.1, step.2.mapSpans f) := by
  rw [List.map_map, List.map_map]
  rfl

/-- An operator that is lowered is lowered to the same connective after it was moved. -/
theorem lowerConnective_mapSpans_eq_ok {rule : Rule} {operator : Tree} {connective : Connective}
    (h : lowerConnective rule operator = .ok connective) :
    lowerConnective rule (operator.mapSpans f) = .ok connective := by
  rw [lowerConnective_mapSpans, h]
  rfl

/-- A derivation moves with its tree. -/
theorem Lowers.mapSpans (hmerge : Span.KeepsMerges f) {rule : Rule} {tree : Tree} {e : Expr}
    (h : Lowers rule tree e) : Lowers rule (tree.mapSpans f) (e.mapSpans f) := by
  induction h with
  | inner hinner hbelow _ ih =>
      rw [Tree.mapSpans_node]
      exact .inner hinner (by rwa [Tree.rule?_mapSpans]) ih
  | @chain _ _ _ _ left steps hform hshort hoperand _ hconnectives hoperands _ ihfirst ihrights =>
      rw [Tree.mapSpans_node, List.map_cons, ChainStep.map_mapSpans_children,
        left.mapSpans_joined hmerge, ← ChainStep.map_joins_mapSpans]
      refine .chain hform (by rwa [List.length_map]) (by rwa [Tree.rule?_mapSpans]) ihfirst
        ?_ ?_ ?_
      · rw [List.forall_mem_map]
        exact fun step hstep => lowerConnective_mapSpans_eq_ok (hconnectives step hstep)
      · rw [List.forall_mem_map]
        exact fun step hstep => (Tree.rule?_mapSpans f _).trans (hoperands step hstep)
      · rw [List.forall_mem_map]
        exact ihrights
  | negation hform hword hoperand _ ih =>
      rw [Tree.mapSpans_node]
      exact .negation hform hword (by rwa [Tree.rule?_mapSpans]) ih
  | sign hform hsign hoperand _ ih =>
      rw [Tree.mapSpans_node]
      exact .sign hform hsign (by rwa [Tree.rule?_mapSpans]) ih
  | @atom _ own token span _ hform hvalue =>
      have hliteral := lowerLiteral_mapSpans (f := f) (.node own [.leaf token] span) token
      rw [hvalue] at hliteral
      rw [Tree.mapSpans_node] at hliteral ⊢
      exact .atom hform hliteral

/-- What a chain has come to moves with the chain. -/
theorem ComesTo.mapSpans (hmerge : Span.KeepsMerges f) {rule : Rule} {chain : Tree}
    {rest : List Tree} (h : ComesTo rule chain rest) :
    ComesTo rule (chain.mapSpans f) (rest.map (Tree.mapSpans f)) := by
  cases h with
  | @intro own first span left steps rest hform heven hshort hoperand hfirst hsteps =>
      rw [Tree.mapSpans_node, List.map_cons, List.map_append, ChainStep.map_mapSpans_children]
      refine .intro hform (by rwa [List.length_map]) (by rwa [List.length_map, List.length_map])
        (by rwa [Tree.rule?_mapSpans])
        ((lowers_of_lowerAs hfirst).mapSpans hmerge).lowerAs_eq_ok ?_
      rw [List.forall_mem_map]
      intro step hstep
      have hsucceeds := hsteps step hstep
      exact ⟨lowerConnective_mapSpans_eq_ok hsucceeds.connective,
        (Tree.rule?_mapSpans f _).trans hsucceeds.operand,
        ((lowers_of_lowerAs hsucceeds.right).mapSpans hmerge).lowerAs_eq_ok⟩

/-- A derivation that stops moves with its tree, and so does its error. -/
theorem Stops.mapSpans (hmerge : Span.KeepsMerges f) {rule : Rule} {tree : Tree}
    {error : LoweringError} (h : Stops rule tree error) :
    Stops rule (tree.mapSpans f) (error.mapSpan f) := by
  induction h with
  | token token =>
      rw [Tree.mapSpans_leaf]
      exact .token _
  | exit hexit =>
      rw [Fault.mapSpan_errorAt]
      have hmoved := hexit.mapSpans (f := f)
      rw [Tree.mapSpans_node] at hmoved ⊢
      exact .exit hmoved
  | inner hinner hbelow _ ih =>
      rw [Tree.mapSpans_node]
      exact .inner hinner (by rwa [Tree.rule?_mapSpans]) ih
  | @firstRule rule own first rest span error hform heven hshort hcheck =>
      have hmoved := checkOperand_mapSpans (f := f) rule.operand (.node own (first :: rest) span)
        first
      rw [hcheck] at hmoved
      rw [Tree.mapSpans_node, List.map_cons] at hmoved ⊢
      exact .firstRule hform (by rwa [List.length_map]) (by rwa [List.length_map]) hmoved
  | first hform heven hshort hoperand _ ih =>
      rw [Tree.mapSpans_node, List.map_cons]
      exact .first hform (by rwa [List.length_map]) (by rwa [List.length_map])
        (by rwa [Tree.rule?_mapSpans]) ih
  | operator hcomes hoperator =>
      refine .operator (hcomes.mapSpans hmerge) ?_
      rw [lowerConnective_mapSpans, hoperator]
      rfl
  | operandRule hcomes hconnective hcheck =>
      refine .operandRule (hcomes.mapSpans hmerge) (lowerConnective_mapSpans_eq_ok hconnective) ?_
      rw [checkOperand_mapSpans, hcheck]
      rfl
  | operand hcomes hconnective hrule _ ih =>
      exact .operand (hcomes.mapSpans hmerge) (lowerConnective_mapSpans_eq_ok hconnective)
        (by rwa [Tree.rule?_mapSpans]) ih
  | negation hform hword hoperand _ ih =>
      rw [Tree.mapSpans_node]
      exact .negation hform hword (by rwa [Tree.rule?_mapSpans]) ih
  | sign hform hsign hoperand _ ih =>
      rw [Tree.mapSpans_node]
      exact .sign hform hsign (by rwa [Tree.rule?_mapSpans]) ih
  | @atom rule own children span error hform hatom =>
      have hmoved := lowerAtom_mapSpans (f := f) (.node own children span)
      rw [hatom] at hmoved
      rw [Tree.mapSpans_node] at hmoved ⊢
      exact .atom hform hmoved

/-- Lowering an expression moves with its tree. -/
theorem lowerAs_mapSpans (hmerge : Span.KeepsMerges f) (rule : Rule) (tree : Tree) :
    lowerAs rule (tree.mapSpans f) = (lowerAs rule tree).mapSpans f (Expr.mapSpans f) := by
  cases hlower : lowerAs rule tree with
  | ok e => exact ((lowers_of_lowerAs hlower).mapSpans hmerge).lowerAs_eq_ok
  | error error => exact ((stops_of_lowerAs hlower).mapSpans hmerge).lowerAs_eq_error

/-- Lowering a node as its own rule moves with its tree. -/
theorem lowerExpression_mapSpans (hmerge : Span.KeepsMerges f) (tree : Tree) :
    lowerExpression (tree.mapSpans f) = (lowerExpression tree).mapSpans f (Expr.mapSpans f) := by
  unfold lowerExpression
  rw [Tree.rule?_mapSpans]
  split
  · exact lowerAs_mapSpans hmerge _ tree
  · exact (mapSpans_mismatch _ _).symm

/-! ## Statements -/

/-- Lowering the target of an assignment moves with its tree. -/
theorem lowerTarget_mapSpans (hmerge : Span.KeepsMerges f) (target : Tree) :
    lowerTarget (target.mapSpans f) = (lowerTarget target).mapSpans f (Expr.mapSpans f) := by
  unfold lowerTarget
  simp only [Tree.isNode_mapSpans, Tree.children_mapSpans]
  split
  · rcases target.children with _ | ⟨item, _ | ⟨second, rest⟩⟩
    · simp
    · simp only [List.map_cons, List.map_nil, Tree.isNode_mapSpans]
      split
      · simp
      · exact lowerExpression_mapSpans hmerge target
    · simp
  · exact lowerExpression_mapSpans hmerge target

/-- Lowering the value of a statement moves with its tree. -/
theorem lowerValue_mapSpans (hmerge : Span.KeepsMerges f) (value : Tree) :
    lowerValue (value.mapSpans f) = (lowerValue value).mapSpans f (Expr.mapSpans f) := by
  unfold lowerValue
  rw [Tree.rule?_mapSpans]
  split
  · simp
  · exact lowerAs_mapSpans hmerge .testlist value
  · exact lowerAs_mapSpans hmerge .testlist value
  · exact (mapSpans_mismatch _ _).symm

/-- The operator of an augmented assignment does not depend on its place. -/
theorem lowerAugmented_mapSpans (augmented : Tree) :
    lowerAugmented (augmented.mapSpans f) = (lowerAugmented augmented).mapSpans f id := by
  unfold lowerAugmented
  rw [Tree.childTokens_mapSpans]
  rcases augmented.childTokens with _ | ⟨token, tokens⟩
  · exact (mapSpans_mismatch _ _).symm
  · simp only [List.map_cons, Token.text_mapSpan, Token.span_mapSpan]
    split <;> rfl

/-- Maps the spans of a child of an expression statement. -/
def Part.mapSpans (f : Span → Span) : Part → Part
  | .operand tree => .operand (tree.mapSpans f)
  | .equals => .equals
  | .augmented tree => .augmented (tree.mapSpans f)

/-- Reading a child of an expression statement moves with both of them. -/
theorem readPart_mapSpans (stmt child : Tree) :
    readPart (stmt.mapSpans f) (child.mapSpans f) =
      (readPart stmt child).mapSpans f (Part.mapSpans f) := by
  unfold readPart
  rw [Tree.rule?_mapSpans]
  split
  · rfl
  · rfl
  · rfl
  · rfl
  · simp
  · exact (mapSpans_mismatch _ _).symm
  · rw [Tree.isToken_mapSpans]
    split
    · rfl
    · exact (mapSpans_mismatch _ _).symm

/-- Reading all children of an expression statement moves with them. -/
theorem readParts_mapSpans (stmt : Tree) (children : List Tree) :
    readParts (stmt.mapSpans f) (children.map (Tree.mapSpans f)) =
      (readParts stmt children).mapSpans f (List.map (Part.mapSpans f)) := by
  induction children with
  | nil => rfl
  | cons child children ih =>
      rw [List.map_cons, readParts, readParts]
      exact bind_moved (readPart_mapSpans stmt child) fun _ => bind_moved ih fun _ => rfl

/-- Lowering an expression statement moves with its tree. -/
theorem lowerExprStmt_mapSpans (hmerge : Span.KeepsMerges f) (stmt : Tree) :
    lowerExprStmt (stmt.mapSpans f) = (lowerExprStmt stmt).mapSpans f (Statement.mapSpans f) := by
  unfold lowerExprStmt
  rw [Tree.children_mapSpans, Tree.span_mapSpans]
  refine bind_moved (readParts_mapSpans stmt stmt.children) fun parts => ?_
  have hother := (mapSpans_mismatch (f := f) (g := Statement.mapSpans f) stmt
    "operands separated by an assignment operator").symm
  -- The shapes that are kept and the chained assignment begin with an operand.
  rcases parts with _ | ⟨first, rest⟩
  · exact hother
  cases first with
  | equals => exact hother
  | augmented operator => exact hother
  | operand target =>
      rcases rest with _ | ⟨second, rest⟩
      · exact bind_moved (lowerValue_mapSpans hmerge target) fun _ => rfl
      rcases rest with _ | ⟨third, rest⟩
      · cases second <;> exact hother
      cases third with
      | equals => cases second <;> exact hother
      | augmented operator => cases second <;> exact hother
      | operand value =>
          cases second with
          | operand tree => exact hother
          | equals =>
              rcases rest with _ | ⟨fourth, rest⟩
              · refine bind_moved (lowerTarget_mapSpans hmerge target) fun _ => ?_
                exact bind_moved (lowerValue_mapSpans hmerge value) fun _ => rfl
              · cases fourth with
                | operand tree => exact hother
                | equals => rfl
                | augmented tree => exact hother
          | augmented operator =>
              rcases rest with _ | ⟨fourth, rest⟩
              · refine bind_moved (lowerTarget_mapSpans hmerge target) fun _ => ?_
                refine bind_moved (lowerAugmented_mapSpans operator) fun _ => ?_
                rw [Tree.isNode_mapSpans]
                split
                · simp
                · exact bind_moved (lowerValue_mapSpans hmerge value) fun _ => rfl
              · exact hother

/-- Lowering a small statement moves with its tree. -/
theorem lowerSmallStmt_mapSpans (hmerge : Span.KeepsMerges f) (small : Tree) :
    lowerSmallStmt (small.mapSpans f) =
      (lowerSmallStmt small).mapSpans f (Statement.mapSpans f) := by
  have hflow : ∀ tree : Tree, (tree.mapSpans f).childNodes.head?.bind Tree.rule? =
      tree.childNodes.head?.bind Tree.rule? := by
    intro tree
    rw [Tree.childNodes_mapSpans, List.head?_map]
    cases tree.childNodes.head? with
    | none => rfl
    | some child => exact Tree.rule?_mapSpans f child
  unfold lowerSmallStmt
  rw [Tree.children_mapSpans]
  rcases small.children with _ | ⟨body, _ | ⟨second, rest⟩⟩
  · exact (mapSpans_mismatch _ _).symm
  · cases body with
    | leaf token => exact (mapSpans_mismatch _ _).symm
    | node rule children span =>
        simp only [List.map_cons, List.map_nil, Tree.mapSpans_node]
        rw [← Tree.mapSpans_node, hflow]
        split
        · exact lowerExprStmt_mapSpans hmerge _
        · split
          · rfl
          · exact (mapSpans_mismatch _ _).symm
        · split
          · rfl
          · exact (mapSpans_mismatch _ _).symm
  · simp

/-- The search for the only small statement of a line moves with the line. -/
theorem soleSmallStmt_mapSpans (line : Tree) (found : Option Tree) (children : List Tree) :
    soleSmallStmt (line.mapSpans f) (found.map (Tree.mapSpans f))
        (children.map (Tree.mapSpans f)) =
      (soleSmallStmt line found children).mapSpans f (Option.map (Tree.mapSpans f)) := by
  induction children generalizing found with
  | nil => rfl
  | cons child children ih =>
      have hseparator : isSeparator (child.mapSpans f) = isSeparator child := by
        cases child <;> simp [isSeparator]
      rw [List.map_cons, soleSmallStmt, soleSmallStmt, Tree.isNode_mapSpans, Option.isSome_map,
        hseparator, Tree.span_mapSpans]
      split
      · split
        · rfl
        · exact ih (some child)
      split
      · exact ih found
      · exact (mapSpans_mismatch _ _).symm

/-- Lowering a line moves with its tree. -/
theorem lowerSimpleStmt_mapSpans (hmerge : Span.KeepsMerges f) (line : Tree) :
    lowerSimpleStmt (line.mapSpans f) =
      (lowerSimpleStmt line).mapSpans f (Statement.mapSpans f) := by
  unfold lowerSimpleStmt
  rw [Tree.isNode_mapSpans, Tree.children_mapSpans]
  split
  · refine bind_moved (soleSmallStmt_mapSpans line none line.children) fun found => ?_
    cases found with
    | none => exact (mapSpans_mismatch _ _).symm
    | some small => exact lowerSmallStmt_mapSpans hmerge small
  · exact (mapSpans_mismatch _ _).symm

/-! ## Entry points -/

section Compound

variable {α β : Type} {g : α → β}

/-- The refusal of a compound statement moves with it. -/
theorem refuseCompoundRule_mapSpans (compound : Tree) :
    refuseCompoundRule (compound.mapSpans f) = mapSpans f g (refuseCompoundRule compound) := by
  unfold refuseCompoundRule
  rw [Tree.rule?_mapSpans, Tree.span_mapSpans]
  split
  · rfl
  · exact (mapSpans_mismatch _ _).symm

/-- The refusal of a compound statement within its node moves with it. -/
theorem refuseCompound_mapSpans (stmt : Tree) :
    refuseCompound (stmt.mapSpans f) = mapSpans f g (refuseCompound stmt) := by
  unfold refuseCompound
  rw [Tree.childNodes_mapSpans]
  rcases stmt.childNodes with _ | ⟨compound, rest⟩
  · exact (mapSpans_mismatch _ _).symm
  · exact refuseCompoundRule_mapSpans compound

end Compound

/-- Lowering a statement of a file moves with its tree. -/
theorem lowerStmt_mapSpans (hmerge : Span.KeepsMerges f) (stmt : Tree) :
    lowerStmt (stmt.mapSpans f) = (lowerStmt stmt).mapSpans f (Statement.mapSpans f) := by
  unfold lowerStmt
  rw [Tree.isNode_mapSpans, Tree.children_mapSpans]
  split
  · rcases stmt.children with _ | ⟨inner, _ | ⟨second, rest⟩⟩
    · exact (mapSpans_mismatch _ _).symm
    · cases inner with
      | leaf token => exact (mapSpans_mismatch _ _).symm
      | node rule children span =>
          simp only [List.map_cons, List.map_nil, Tree.mapSpans_node]
          rw [← Tree.mapSpans_node]
          split
          · exact lowerSimpleStmt_mapSpans hmerge _
          · exact refuseCompound_mapSpans _
          · split
            · exact refuseCompoundRule_mapSpans _
            · exact (mapSpans_mismatch _ _).symm
    · simp
  · exact (mapSpans_mismatch _ _).symm

/-- The error about a stray token moves with the token. -/
theorem refuseStray_mapSpans {α β : Type} {g : α → β} (token : Token) (place : StrayPlace) :
    refuseStray (token.mapSpan f) place = mapSpans f g (refuseStray token place) :=
  rfl

/-- Lowering the lines of a file moves with them. -/
theorem lowerLines_mapSpans (hmerge : Span.KeepsMerges f) (children : List Tree) :
    lowerLines (children.map (Tree.mapSpans f)) =
      (lowerLines children).mapSpans f (List.map (Statement.mapSpans f)) := by
  induction children with
  | nil => rfl
  | cons child children ih =>
      cases child with
      | leaf token =>
          rw [List.map_cons, Tree.mapSpans_leaf, lowerLines, lowerLines,
            Token.isStructural_mapSpan]
          split
          · exact ih
          · exact refuseStray_mapSpans token .topLevel
      | node rule grandchildren span =>
          rw [List.map_cons, Tree.mapSpans_node, lowerLines, lowerLines, ← Tree.mapSpans_node]
          exact bind_moved (lowerStmt_mapSpans hmerge _) fun _ => bind_moved ih fun _ => rfl

/-- Lowering a file moves with its tree. -/
theorem lowerFileInput_mapSpans (hmerge : Span.KeepsMerges f) (root : Tree) :
    lowerFileInput (root.mapSpans f) = (lowerFileInput root).mapSpans f (Program.mapSpans f) := by
  unfold lowerFileInput
  rw [Tree.isNode_mapSpans, Tree.children_mapSpans]
  split
  · exact bind_moved (lowerLines_mapSpans hmerge root.children) fun _ => rfl
  · exact (mapSpans_mismatch _ _).symm

/-- Lowering an interactive input moves with its tree. -/
theorem lowerSingleInput_mapSpans (hmerge : Span.KeepsMerges f) (root : Tree) :
    lowerSingleInput (root.mapSpans f) =
      (lowerSingleInput root).mapSpans f (Program.mapSpans f) := by
  have hother := (mapSpans_mismatch (f := f) (g := Program.mapSpans f) root
    "a newline, `simple_stmt` or `compound_stmt`").symm
  unfold lowerSingleInput
  rw [Tree.isNode_mapSpans, Tree.children_mapSpans]
  split
  · rcases root.children with _ | ⟨first, _ | ⟨second, _ | ⟨third, rest⟩⟩⟩
    · exact hother
    · cases first with
      | leaf token =>
          simp only [List.map_cons, List.map_nil, Tree.mapSpans_leaf, Token.kind_mapSpan]
          by_cases hnewline : token.kind == .newline
          · simp only [hnewline, if_true]
            rfl
          · simp only [hnewline, Bool.false_eq_true, if_false]
            exact hother
      | node rule children span =>
          simp only [List.map_cons, List.map_nil, Tree.mapSpans_node]
          rw [← Tree.mapSpans_node]
          split
          · exact bind_moved (lowerSimpleStmt_mapSpans hmerge _) fun _ => rfl
          · exact hother
    · cases second with
      | leaf token =>
          simp only [List.map_cons, List.map_nil, Tree.mapSpans_leaf, Token.kind_mapSpan,
            Tree.isNode_mapSpans]
          split
          · exact refuseCompound_mapSpans first
          · exact hother
      | node rule children span => cases first <;> exact hother
    · cases first <;> cases second <;> exact hother
  · exact (mapSpans_mismatch _ _).symm

/-- The check of what stands behind an expression moves with it. -/
theorem checkEnd_mapSpans (rest : List Tree) :
    checkEnd (rest.map (Tree.mapSpans f)) = (checkEnd rest).mapSpans f id := by
  induction rest with
  | nil => rfl
  | cons child rest ih =>
      cases child with
      | leaf token =>
          rw [List.map_cons, Tree.mapSpans_leaf, checkEnd, checkEnd, Token.isStructural_mapSpan]
          split
          · exact ih
          · exact refuseStray_mapSpans token .afterExpression
      | node rule children span =>
          rw [List.map_cons, Tree.mapSpans_node, checkEnd, checkEnd, ← Tree.mapSpans_node]
          exact (mapSpans_mismatch _ _).symm

/-- Lowering an expression on its own moves with its tree. -/
theorem lowerEvalInput_mapSpans (hmerge : Span.KeepsMerges f) (root : Tree) :
    lowerEvalInput (root.mapSpans f) = (lowerEvalInput root).mapSpans f (Expr.mapSpans f) := by
  unfold lowerEvalInput
  rw [Tree.isNode_mapSpans, Tree.children_mapSpans]
  rcases root.children with _ | ⟨first, rest⟩
  · exact (mapSpans_mismatch _ _).symm
  cases first with
  | leaf token => exact (mapSpans_mismatch _ _).symm
  | node rule children span =>
      simp only [List.map_cons, Tree.mapSpans_node]
      rw [← Tree.mapSpans_node]
      split
      · refine bind_moved (checkEnd_mapSpans rest) fun _ => ?_
        exact lowerAs_mapSpans hmerge .testlist _
      · exact (mapSpans_mismatch _ _).symm

end ScriptLowering
