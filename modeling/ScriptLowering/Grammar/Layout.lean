import ScriptLowering.Grammar.Tree

/-!
# Laying out a tree

Layout writes the tokens of a tree out as one text and gives every token the
span that it takes up there.  Tokens are separated by single spaces; a space is
left out at the start of a line, before a line break, and before a token
without text.  Every node then covers its children again.

Main definitions:

- `Page`: the text written so far, and whether it ends at the start of a line.
- `Tree.place`: writes one tree onto a page.
- `Tree.layout`: writes a tree onto an empty page.
-/

namespace ScriptLowering

/-- The offset at the end of a text; the end of a text that is too long is the last offset. -/
def endOffset (text : String) : UInt32 :=
  UInt32.ofNat (min text.utf8ByteSize Span.maxOffset)

/-- What has been written of a text. -/
structure Page where
  text : String
  /-- The text is empty or ends with a line break. -/
  atLineStart : Bool
deriving DecidableEq, Inhabited

namespace Page

/-- The page with nothing on it. -/
def blank : Page := ⟨"", true⟩

/-- What is written between the page and a token. -/
def separator (page : Page) (token : Token) : String :=
  if page.atLineStart || token.kind == .newline || token.text.isEmpty then "" else " "

/-- The page is at the start of a line after a token that ends with a line break, and stays where
it was after a token without text. -/
def atLineStartAfter (page : Page) (token : Token) : Bool :=
  match token.text.toList.getLast? with
  | some c => c == '\n'
  | none => page.atLineStart

/-- Writes a token, which then spans the text it was written as. -/
def write (page : Page) (token : Token) : Token × Page :=
  let before := page.text ++ page.separator token
  let after := before ++ token.text
  ({ token with span := ⟨endOffset before, endOffset after⟩ },
    ⟨after, page.atLineStartAfter token⟩)

end Page

/-- A text with the tree whose spans refer to it. -/
structure Layout where
  source : String
  root : Tree
deriving DecidableEq, Inhabited

namespace Tree

mutual

/-- Writes the tokens of a tree in document order. -/
def place (page : Page) : Tree → Tree × Page
  | .leaf token =>
    let (token, page) := page.write token
    (.leaf token, page)
  | .node rule children _ =>
    let (children, page) := placeAll page children
    (ofChildren rule children, page)

/-- Writes one tree after the other. -/
def placeAll (page : Page) : List Tree → List Tree × Page
  | [] => ([], page)
  | tree :: trees =>
    let (tree, page) := place page tree
    let (trees, page) := placeAll page trees
    (tree :: trees, page)

end

/-- Writes a tree out as a text of its own. -/
def layout (tree : Tree) : Layout :=
  let (root, page) := tree.place .blank
  ⟨page.text, root⟩

end Tree

end ScriptLowering
