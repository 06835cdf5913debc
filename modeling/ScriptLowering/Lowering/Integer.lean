/-!
# Integer literals

An integer literal is written in decimal digits, or in the digits of another
radix after `0x`, `0o` or `0b`.  Underscores may stand anywhere and are dropped
first.  What follows a radix mark may begin with a sign.  The value has to fit
in 64 bits with a sign.

Main definitions:

- `IntegerLiteral.value?`: the value of a literal, or why it has none.
-/

namespace ScriptLowering
namespace IntegerLiteral

/-- Why a text is no integer literal. -/
inductive Fault where
  /-- A number without a radix mark and with more than decimal digits in it. -/
  | notInteger
  /-- A value above the largest one. -/
  | overflow
  /-- Digits that are missing or do not belong to the radix. -/
  | malformed
deriving DecidableEq, Inhabited

/-- The largest value of a literal. -/
def maxValue : Nat := 9223372036854775807

/-- The text of a literal without its underscores. -/
def digits (text : String) : List Char :=
  text.toList.filter fun c => c != '_'

/-- The radix that a literal is written in, and what follows the mark of the radix. -/
def splitRadix : List Char → Nat × List Char
  | '0' :: 'x' :: rest => (16, rest)
  | '0' :: 'X' :: rest => (16, rest)
  | '0' :: 'o' :: rest => (8, rest)
  | '0' :: 'O' :: rest => (8, rest)
  | '0' :: 'b' :: rest => (2, rest)
  | '0' :: 'B' :: rest => (2, rest)
  | cs => (10, cs)

/-- The value of a digit, in any radix up to sixteen. -/
def digitValue? (radix : Nat) (c : Char) : Option Nat :=
  let value :=
    if '0' ≤ c ∧ c ≤ '9' then some (c.toNat - '0'.toNat)
    else if 'a' ≤ c ∧ c ≤ 'f' then some (c.toNat - 'a'.toNat + 10)
    else if 'A' ≤ c ∧ c ≤ 'F' then some (c.toNat - 'A'.toNat + 10)
    else none
  value.filter fun value => value < radix

/-- Reads digits from left to right, `value` being what was read so far.  A character that is no
digit is found before the value of the digits up to it can be too large. -/
def readDigits (radix limit value : Nat) : List Char → Except Fault Nat
  | [] => .ok value
  | c :: rest =>
    match digitValue? radix c with
    | none => .error .malformed
    | some digit =>
      if limit < value * radix + digit then .error .overflow
      else readDigits radix limit (value * radix + digit) rest

/-- Reads digits with a sign in front or without one.  A negative value that is too small is
malformed. -/
def readSigned (radix : Nat) : List Char → Except Fault Int
  | [] => .error .malformed
  | ['+'] => .error .malformed
  | ['-'] => .error .malformed
  | '+' :: rest => (readDigits radix maxValue 0 rest).map Int.ofNat
  | '-' :: rest =>
    match readDigits radix (maxValue + 1) 0 rest with
    | .ok value => .ok (-value)
    | .error _ => .error .malformed
  | cs => (readDigits radix maxValue 0 cs).map Int.ofNat

/-- The value of an integer literal. -/
def value? (text : String) : Except Fault Int64 :=
  let (radix, body) := splitRadix (digits text)
  if radix == 10 && !body.all Char.isDigit then .error .notInteger
  else (readSigned radix body).map Int64.ofInt

end IntegerLiteral
end ScriptLowering
