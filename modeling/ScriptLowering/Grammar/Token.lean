import ScriptLowering.Span

/-!
# Tokens

A token is a terminal leaf of a concrete tree: its lexical class, the text it
was written as, and where it stands.  Line breaks and the end marker separate
statements and carry none of their own content; they are the structural
classes.
-/

namespace ScriptLowering

/-- Lexical class of a token. -/
inductive TokenKind where
  /-- An identifier. -/
  | name
  /-- A numeric literal of any radix or form. -/
  | number
  /-- A string literal with its quotes and its letters in front. -/
  | string
  /-- A reserved word. -/
  | keyword
  /-- An operator or delimiter. -/
  | operator
  /-- A logical line break. -/
  | newline
  | indent
  | dedent
  /-- The end of the input. -/
  | endmarker
deriving DecidableEq, Inhabited

namespace TokenKind

/-- All lexical classes. -/
def all : List TokenKind :=
  [.name, .number, .string, .keyword, .operator, .newline, .indent, .dedent, .endmarker]

/-- The word that names a lexical class. -/
def label : TokenKind → String
  | .name => "name"
  | .number => "number"
  | .string => "string"
  | .keyword => "keyword"
  | .operator => "operator"
  | .newline => "newline"
  | .indent => "indent"
  | .dedent => "dedent"
  | .endmarker => "endmarker"

/-- The lexical class that a word names. -/
def ofLabel? (label : String) : Option TokenKind :=
  all.find? fun kind => kind.label == label

/-- Line breaks and the end marker carry no statement content. -/
def isStructural : TokenKind → Bool
  | .newline | .endmarker => true
  | _ => false

end TokenKind

/-- A terminal leaf of a concrete tree. -/
structure Token where
  kind : TokenKind
  /-- The text exactly as it stands in the source. -/
  text : String
  span : Span := .unplaced
deriving DecidableEq, Inhabited

namespace Token

/-- A token has the given class and the given text. -/
def is (token : Token) (kind : TokenKind) (text : String) : Bool :=
  token.kind == kind && token.text == text

/-- A token of a structural class. -/
def isStructural (token : Token) : Bool :=
  token.kind.isStructural

@[simp]
theorem is_iff {token : Token} {kind : TokenKind} {text : String} :
    token.is kind text = true ↔ token.kind = kind ∧ token.text = text := by
  simp [is]

/-! ## Tokens without a position -/

/-- An identifier. -/
def name (text : String) : Token := ⟨.name, text, .unplaced⟩

/-- A numeric literal. -/
def number (text : String) : Token := ⟨.number, text, .unplaced⟩

/-- A string literal. -/
def string (text : String) : Token := ⟨.string, text, .unplaced⟩

/-- A reserved word. -/
def keyword (text : String) : Token := ⟨.keyword, text, .unplaced⟩

/-- An operator; one that is spelled with ASCII letters alone is a reserved word. -/
def operator (text : String) : Token :=
  if text.toList.all Char.isAlpha then keyword text else ⟨.operator, text, .unplaced⟩

/-- A line break. -/
def newline : Token := ⟨.newline, "\n", .unplaced⟩

/-- The end of the input, which has no text. -/
def endmarker : Token := ⟨.endmarker, "", .unplaced⟩

end Token

end ScriptLowering
