import ScriptLowering.Json
import ScriptLowering.Script.Program

/-!
# Scripts as JSON documents

The document of an expression, a statement or a program is an object that
names its type first.  The two offsets of a span come last, as members of the
object that they belong to.  The document of a literal holds its value without
saying what kind of literal it is, so a name and a string with one text have
one document.
-/

namespace ScriptLowering

/-- The two offsets of a span as members of an object. -/
def Span.members (span : Span) : List (String × Json) :=
  [("start", .integer span.start.toNat), ("end", .integer span.stop.toNat)]

/-- The value of a literal. -/
def LiteralValue.toJson : LiteralValue → Json
  | .integer value => .integer value.toInt
  | .boolean value => .boolean value
  | .name text => .string text
  | .string text => .string text

/-- The document of an expression. -/
def Expr.toJson : Expr → Json
  | .literal value raw span =>
    .object ([("type", .string "Literal"), ("value", value.toJson), ("raw", .string raw)]
      ++ span.members)
  | .unary operator argument span =>
    .object ([("type", .string "UnaryExpression"), ("operator", .string operator.symbol),
      ("argument", argument.toJson)] ++ span.members)
  | .binary operator left right span =>
    .object ([("type", .string "BinaryExpression"), ("operator", .string operator.symbol),
      ("left", left.toJson), ("right", right.toJson)] ++ span.members)
  | .logical operator left right span =>
    .object ([("type", .string "LogicalExpression"), ("operator", .string operator.symbol),
      ("left", left.toJson), ("right", right.toJson)] ++ span.members)

/-- The document of a statement. -/
def Statement.toJson : Statement → Json
  | .expression value span =>
    .object ([("type", .string "ExpressionStatement"), ("expression", value.toJson)]
      ++ span.members)
  | .assignment operator target value span =>
    .object ([("type", .string "AssignmentStatement"), ("operator", .string operator.symbol),
      ("left", target.toJson), ("right", value.toJson)] ++ span.members)

/-- The document of a program. -/
def Program.toJson (program : Program) : Json :=
  .object
    [ ("type", .string "Program"), ("sourceType", .string "script"),
      ("body", .array (program.body.map Statement.toJson))]

end ScriptLowering
