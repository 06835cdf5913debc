/-!
# JSON documents

A JSON document with the members of an object in the order they were given,
and its compact text: no blanks between tokens, decimal integers, and strings
that escape the quote, the backslash and the control characters only.

Main definitions:

- `Json.quote`: a string literal.
- `Json.text`: the compact text of a document.
-/

namespace ScriptLowering

/-- A document of truth values, integers, strings, arrays and objects. -/
inductive Json where
  | boolean (value : Bool)
  | integer (value : Int)
  | string (text : String)
  | array (items : List Json)
  | object (members : List (String × Json))
deriving Inhabited

namespace Json

/-! ## String literals -/

/-- The digit of a number below sixteen. -/
def hexDigit (n : Nat) : Char :=
  ("0123456789abcdef".toList).getD n '0'

/-- A character inside a string literal: the short escapes where there are any, a numeric escape
for the other characters below the space, and every other character as it is. -/
def escapeChar (c : Char) : List Char :=
  match c with
  | '"' => ['\\', '"']
  | '\\' => ['\\', '\\']
  | '\x08' => ['\\', 'b']
  | '\x0c' => ['\\', 'f']
  | '\n' => ['\\', 'n']
  | '\r' => ['\\', 'r']
  | '\t' => ['\\', 't']
  | c =>
    if c.toNat < 32 then
      ['\\', 'u', '0', '0', hexDigit (c.toNat / 16), hexDigit (c.toNat % 16)]
    else [c]

/-- A string literal with its quotes. -/
def quote (text : String) : String :=
  "\"" ++ String.ofList (text.toList.flatMap escapeChar) ++ "\""

/-! ## Compact text -/

mutual

/-- The compact text of a document. -/
def text : Json → String
  | .boolean value => if value then "true" else "false"
  | .integer value => toString value
  | .string text => quote text
  | .array items => "[" ++ itemsText items ++ "]"
  | .object members => "\x7b" ++ membersText members ++ "\x7d"

/-- The items of an array, separated by commas. -/
def itemsText : List Json → String
  | [] => ""
  | [item] => item.text
  | item :: next :: rest => item.text ++ "," ++ itemsText (next :: rest)

/-- The members of an object, separated by commas. -/
def membersText : List (String × Json) → String
  | [] => ""
  | [(key, value)] => quote key ++ ":" ++ value.text
  | (key, value) :: next :: rest =>
    quote key ++ ":" ++ value.text ++ "," ++ membersText (next :: rest)

end

end Json

end ScriptLowering
