import ScriptLowering.Span

/-!
# Diagnostics

A diagnostic is one message about a source text: a code that tells its class, a
severity, labels at stretches of the source, and notes.  The first label is the
primary one and decides where the diagnostic is reported.

Main definitions:

- `Code.ofText?`: reads a code without regard to the case of its letters.
- `Diagnostic.display`: the text of a diagnostic.
-/

namespace ScriptLowering

/-- The weight of a diagnostic. -/
inductive Severity where
  | error | warning
deriving DecidableEq, Inhabited

/-- The word that names a severity. -/
def Severity.label : Severity → String
  | .error => "error"
  | .warning => "warning"

/-! ## Codes -/

/-- The class of a diagnostic. -/
inductive Code where
  /-- The text or the tree does not match the grammar. -/
  | e0001
  /-- A construct outside the subset. -/
  | e1001
deriving DecidableEq, Inhabited

namespace Code

/-- All codes in numeric order. -/
def all : List Code := [.e0001, .e1001]

/-- The written form of a code. -/
def text : Code → String
  | .e0001 => "E0001"
  | .e1001 => "E1001"

/-- A short description of the class that a code stands for. -/
def description : Code → String
  | .e0001 => "syntax error"
  | .e1001 => "construct not allowed"

/-- The code of a text or tree that does not match the grammar. -/
def isSyntaxError : Code → Bool
  | .e0001 => true
  | .e1001 => false

/-- The code of a construct outside the subset. -/
def isSubsetError : Code → Bool
  | .e0001 => false
  | .e1001 => true

/-- A text with its ASCII letters in lower case. -/
def fold (text : String) : List Char :=
  text.toList.map Char.toLower

/-- The code with the given written form; ASCII letters may be in either case. -/
def ofText? (text : String) : Option Code :=
  all.find? fun code => fold code.text == fold text

/-- A code is read back from its text. -/
theorem ofText?_text (code : Code) : ofText? code.text = some code := by
  cases code <;> decide

end Code

/-! ## Diagnostics -/

/-- A stretch of source with a text about it. -/
structure Label where
  span : Span
  message : String
deriving DecidableEq, Inhabited

/-- A message about a source text. -/
structure Diagnostic where
  code : Code
  severity : Severity
  message : String := ""
  /-- The labels; the first is the primary one. -/
  labels : List Label := []
  notes : List String := []
deriving DecidableEq, Inhabited

namespace Diagnostic

/-- The diagnostic weighs as an error. -/
def isError (diagnostic : Diagnostic) : Bool :=
  diagnostic.severity == .error

/-- The span of the primary label. -/
def primarySpan? (diagnostic : Diagnostic) : Option Span :=
  diagnostic.labels.head?.map Label.span

/-- The line of text for a label. -/
def labelLine (label : Label) : String :=
  "\n  --> " ++ toString label.span ++ ": " ++ label.message

/-- The line of text for a note. -/
def noteLine (note : String) : String :=
  "\n  = note: " ++ note

/-- The text of a diagnostic: a heading, then a line for each label and each note. -/
def display (diagnostic : Diagnostic) : String :=
  diagnostic.severity.label ++ " [" ++ diagnostic.code.text ++ "]: " ++ diagnostic.message
    ++ String.join (diagnostic.labels.map labelLine)
    ++ String.join (diagnostic.notes.map noteLine)

end Diagnostic

end ScriptLowering
