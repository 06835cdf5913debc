import ScriptLowering.Grammar.Tree
import ScriptLowering.Report.Diagnostic
import ScriptLowering.Subset.Construct

/-!
# Why lowering stops

Lowering stops at the first of two kinds of error: a construct outside the
subset, or a tree or text that does not match the grammar.  Each error names
its cause and the stretch of source it is about, and becomes one diagnostic
with a label at that stretch.

Main definitions:

- `UnsupportedConstruct`, `ParseFailure`: the two kinds of error.
- `LoweringError.toDiagnostic`: the diagnostic for an error.
-/

namespace ScriptLowering

/-! ## Constructs outside the subset -/

/-- A construct outside the subset, where it stands. -/
structure UnsupportedConstruct where
  construct : Construct
  span : Span
deriving DecidableEq, Inhabited

namespace UnsupportedConstruct

/-- The explanation in one line. -/
def explanation (error : UnsupportedConstruct) : String :=
  error.construct.category ++ (if error.construct.isSingular then " is" else " are")
    ++ " not allowed"

/-- The longer explanation, which becomes a note. -/
def elaboration (error : UnsupportedConstruct) : String :=
  "You are trying to use " ++ error.construct.category ++ ", which is not allowed (yet)."

end UnsupportedConstruct

/-! ## Failures of the grammar -/

/-- The place of a token that does not belong there. -/
inductive StrayPlace where
  | topLevel | afterExpression
deriving DecidableEq, Inhabited

/-- A way in which a text or a tree does not match the grammar. -/
inductive SyntaxFault where
  /-- A tree that stands where the grammar expects something else. -/
  | mismatch (expected found : String)
  /-- A token between statements, or after an expression that should end the input. -/
  | strayToken (text : String) (place : StrayPlace)
  /-- A number with a radix and without the digits for it. -/
  | malformedInteger (text : String)
  /-- What a grammar parser has to say about a text. -/
  | reported (message : String)
deriving DecidableEq, Inhabited

/-- The text shown for a fault. -/
def SyntaxFault.message : SyntaxFault → String
  | .mismatch expected found =>
    "grammar mismatch: expected " ++ expected ++ ", found `" ++ found ++ "`"
  | .strayToken text .topLevel => "unexpected token `" ++ text ++ "` at top level"
  | .strayToken text .afterExpression => "unexpected token `" ++ text ++ "` after expression"
  | .malformedInteger text => "malformed integer literal `" ++ text ++ "`"
  | .reported message => message

/-- A fault, where it stands. -/
structure ParseFailure where
  span : Span
  fault : SyntaxFault
deriving DecidableEq, Inhabited

namespace ParseFailure

/-- The failure that a grammar parser reports with a message of its own. -/
def reported (span : Span) (message : String) : ParseFailure :=
  ⟨span, .reported message⟩

/-- The failure of a tree that stands where the grammar expects something else. -/
def mismatch (tree : Tree) (expected : String) : ParseFailure :=
  ⟨tree.span, .mismatch expected tree.label⟩

/-- The text shown for a failure. -/
def message (failure : ParseFailure) : String :=
  failure.fault.message

/-- The longer explanation, which becomes a note. -/
def elaboration : String :=
  "There is a syntax error in your program"

end ParseFailure

/-! ## Errors of lowering -/

/-- The error that stopped lowering. -/
inductive LoweringError where
  | unsupported (error : UnsupportedConstruct)
  | parse (failure : ParseFailure)
deriving DecidableEq, Inhabited

namespace LoweringError

/-- The stretch of source that an error is about. -/
def span : LoweringError → Span
  | .unsupported error => error.span
  | .parse failure => failure.span

/-- The construct outside the subset, if that is the error. -/
def construct? : LoweringError → Option Construct
  | .unsupported error => some error.construct
  | .parse _ => none

/-- The text shown for an error. -/
def message : LoweringError → String
  | .unsupported error => error.explanation
  | .parse failure => failure.message

/-- The diagnostic for an error, with its only label at the span of the error. -/
def toDiagnostic : LoweringError → Diagnostic
  | .unsupported error =>
    { code := .e1001
      severity := .error
      message := error.explanation
      labels := [⟨error.span, error.construct.category ++ " used here"⟩]
      notes := [error.elaboration] }
  | .parse failure =>
    { code := .e0001
      severity := .error
      message := failure.message
      labels := [⟨failure.span, "syntax error here"⟩]
      notes := [ParseFailure.elaboration] }

/-- The diagnostic for an error is placed at the span of the error. -/
@[simp]
theorem primarySpan?_toDiagnostic (error : LoweringError) :
    error.toDiagnostic.primarySpan? = some error.span := by
  cases error <;> rfl

/-- The diagnostic for an error is an error. -/
@[simp]
theorem isError_toDiagnostic (error : LoweringError) : error.toDiagnostic.isError = true := by
  cases error <;> rfl

end LoweringError

/-- What lowering a tree gives: a part of a script, or the error that stopped it. -/
abbrev Lowered (α : Type) := Except LoweringError α

/-- Stops at a construct outside the subset. -/
def refuse {α : Type} (construct : Construct) (span : Span) : Lowered α :=
  .error (.unsupported ⟨construct, span⟩)

/-- Stops at a tree that stands where the grammar expects something else. -/
def mismatch {α : Type} (tree : Tree) (expected : String) : Lowered α :=
  .error (.parse (.mismatch tree expected))

/-- A step succeeds after another one exactly when both of them succeed. -/
theorem Lowered.bind_eq_ok {α β : Type} {first : Lowered α} {next : α → Lowered β} {b : β} :
    first >>= next = .ok b ↔ ∃ a, first = .ok a ∧ next a = .ok b := by
  cases first with
  | error error => simp [bind, Except.bind]
  | ok a => simp [bind, Except.bind]

/-- One of two steps fails exactly when the first one does, or the second one after it. -/
theorem Lowered.bind_eq_error {α β : Type} {first : Lowered α} {next : α → Lowered β}
    {error : LoweringError} :
    first >>= next = .error error ↔
      first = .error error ∨ ∃ a, first = .ok a ∧ next a = .error error := by
  cases first with
  | error error => simp [bind, Except.bind]
  | ok a => simp [bind, Except.bind]

@[simp]
theorem refuse_ne_ok {α : Type} (construct : Construct) (span : Span) (a : α) :
    refuse construct span ≠ .ok a :=
  nofun

@[simp]
theorem mismatch_ne_ok {α : Type} (tree : Tree) (expected : String) (a : α) :
    mismatch tree expected ≠ .ok a :=
  nofun

end ScriptLowering
