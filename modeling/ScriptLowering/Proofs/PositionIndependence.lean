import ScriptLowering.Grammar.StatementForms
import ScriptLowering.Proofs.Displacement
import ScriptLowering.Proofs.FaithfulLayout

/-!
# Lowering without positions

Lowering copies positions into its results and never decides by one.  Erasing all
positions of a tree is a move like any other, so two trees that differ in their
positions only are both accepted, with one script up to positions, or both stopped
by one error up to its position.  A tree and its layout are two such trees.

Main results:

- Definition `Lowered.Agree`: two results agree up to positions.
- Theorem `Lowered.Agree.of_mapSpans_eq`: results that are equal without positions
  agree.
- Theorem `ignoresPositions_of_moved`: what moves with its tree does not depend on
  where the tree stands.
- Theorem `lowering_ignoresPositions`: every way to lower a tree ignores positions.
-/

namespace ScriptLowering

/-! ## Agreement of results -/

/-- Two results agree up to positions: both were lowered, to the same without
positions; or both were refused, for the same construct; or neither matches the
grammar, for the same fault and with the same message. -/
inductive Lowered.Agree {α : Type} (erase : α → α) : Lowered α → Lowered α → Prop
  | ok {a b : α} (h : erase a = erase b) : Agree erase (.ok a) (.ok b)
  | unsupported {a b : UnsupportedConstruct} (h : a.construct = b.construct) :
      Agree erase (.error (.unsupported a)) (.error (.unsupported b))
  | parse {a b : ParseFailure} (hfault : a.fault = b.fault) (hmessage : a.message = b.message) :
      Agree erase (.error (.parse a)) (.error (.parse b))

/-- Results that are equal without positions agree. -/
theorem Lowered.Agree.of_mapSpans_eq {α : Type} {erase : α → α} {first second : Lowered α}
    (h : first.mapSpans (fun _ => .unplaced) erase = second.mapSpans (fun _ => .unplaced) erase) :
    Agree erase first second := by
  cases first with
  | ok a =>
      cases second with
      | ok b => exact .ok (Except.ok.inj h)
      | error error => contradiction
  | error error =>
      cases second with
      | ok b => contradiction
      | error other =>
          have herror : error.mapSpan (fun _ => .unplaced) = other.mapSpan fun _ => .unplaced :=
            Except.error.inj h
          cases error with
          | unsupported own =>
              cases other with
              | unsupported own' =>
                  have hconstruct := congrArg LoweringError.construct? herror
                  exact .unsupported (Option.some.inj hconstruct)
              | parse failure => contradiction
          | parse failure =>
              cases other with
              | unsupported own => contradiction
              | parse failure' =>
                  have hfault := congrArg ParseFailure.fault (LoweringError.parse.inj herror)
                  exact .parse hfault (congrArg SyntaxFault.message hfault)

/-! ## Ways to lower trees -/

/-- Erasing all positions keeps merges. -/
theorem Span.keepsMerges_unplaced : Span.KeepsMerges fun _ => .unplaced :=
  fun _ _ => (Span.merge_self .unplaced).symm

/-- A way to lower trees ignores positions: its results agree on trees that differ in
their positions only, and so they do on a tree and its layout. -/
structure IgnoresPositions {α : Type} (erase : α → α) (lower : Tree → Lowered α) : Prop where
  agree {tree tree' : Tree} (h : tree.eraseSpans = tree'.eraseSpans) :
    Lowered.Agree erase (lower tree) (lower tree')
  agree_layout (tree : Tree) : Lowered.Agree erase (lower tree) (lower tree.layout.root)

/-- What moves with its tree does not depend on where the tree stands. -/
theorem ignoresPositions_of_moved {α : Type} {erase : α → α} {lower : Tree → Lowered α}
    (hmoved : ∀ tree : Tree, lower (tree.mapSpans fun _ => .unplaced) =
      (lower tree).mapSpans (fun _ => .unplaced) erase) : IgnoresPositions erase lower := by
  have hagree : ∀ tree tree' : Tree, tree.eraseSpans = tree'.eraseSpans →
      Lowered.Agree erase (lower tree) (lower tree') := by
    intro tree tree' h
    apply Lowered.Agree.of_mapSpans_eq
    rw [← hmoved tree, ← hmoved tree']
    exact congrArg lower h
  constructor
  · exact hagree _ _
  · intro tree
    exact hagree _ _ (tree.eraseSpans_place .blank).symm

/-- Every way to lower a tree ignores positions: files, interactive inputs and
expressions on their own, and expressions, tests, lists of tests and lines. -/
theorem lowering_ignoresPositions :
    IgnoresPositions Program.eraseSpans lowerFileInput ∧
      IgnoresPositions Program.eraseSpans lowerSingleInput ∧
      IgnoresPositions Expr.eraseSpans lowerEvalInput ∧
      IgnoresPositions Expr.eraseSpans lowerExpression ∧
      IgnoresPositions Expr.eraseSpans lowerTest ∧
      IgnoresPositions Expr.eraseSpans lowerTestlist ∧
      IgnoresPositions Statement.eraseSpans lowerSimpleStmt :=
  have hmerge := Span.keepsMerges_unplaced
  ⟨ignoresPositions_of_moved (lowerFileInput_mapSpans hmerge),
    ignoresPositions_of_moved (lowerSingleInput_mapSpans hmerge),
    ignoresPositions_of_moved (lowerEvalInput_mapSpans hmerge),
    ignoresPositions_of_moved (lowerExpression_mapSpans hmerge),
    ignoresPositions_of_moved (lowerAs_mapSpans hmerge .test),
    ignoresPositions_of_moved (lowerAs_mapSpans hmerge .testlist),
    ignoresPositions_of_moved (lowerSimpleStmt_mapSpans hmerge)⟩

/-- A file whose second line adds to a name what a function gives back. -/
def callingFile : Tree :=
  .file
    [ .statement (.identifier "a"),
      .statement (.chain .arithExpr (.identifier "b")
        [("+", .withTrailers (.identifier "f") [.callTrailer none])])]

/-- The file is refused before and after it is laid out, for its call and at two
positions. -/
theorem lowering_ignoresPositions_callingFile :
    lowerFileInput callingFile = refuse .functionCalls .unplaced ∧
      lowerFileInput callingFile.layout.root = refuse .functionCalls ⟨8, 11⟩ ∧
      Lowered.Agree Program.eraseSpans (lowerFileInput callingFile)
        (lowerFileInput callingFile.layout.root) :=
  ⟨by decide, by decide, lowering_ignoresPositions.1.agree_layout callingFile⟩

end ScriptLowering
