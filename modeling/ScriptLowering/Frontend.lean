import ScriptLowering.Lowering.Program
import ScriptLowering.Report.Queue

/-!
# From source text to a script

A grammar parser turns a source text into a tree, lowering turns the tree into
a script, and every error on the way is reported to a queue of diagnostics.
There is a script exactly when the parser and the lowering succeed, whatever
the queue already holds.

Main definitions:

- `GrammarParser`: what turns a text into a tree.
- `report`: reports an error of lowering.
- `parseProgram`, `parseInteractive`, `parseExpression`: the three ways to read a text.
-/

namespace ScriptLowering

variable {digest : Digest}

/-- The rule of the grammar that a whole text has to match. -/
inductive EntryPoint where
  | fileInput | singleInput | evalInput
deriving DecidableEq, Inhabited

/-- The rule that an entry point stands for. -/
def EntryPoint.rule : EntryPoint → Rule
  | .fileInput => .fileInput
  | .singleInput => .singleInput
  | .evalInput => .evalInput

/-- What turns a text into a tree, or into the failures that it finds in it. -/
abbrev GrammarParser := String → EntryPoint → Except (List ParseFailure) Tree

/-- Reports an error of lowering at its position in a text. -/
def report (error : LoweringError) (source : String) (queue : Queue digest) :
    ErrorGuarantee × Queue digest :=
  queue.emitWithSource error.toDiagnostic source

/-- The failure of a parser that rejects a text and does not say why. -/
def unexplainedFailure : ParseFailure :=
  .reported .unplaced "the grammar parser rejected the input"

/-- The failures of a parser; a parser that gives none still has one. -/
def failuresToReport (failures : List ParseFailure) : List ParseFailure :=
  if failures.isEmpty then [unexplainedFailure] else failures

/-- Reports the failures of a parser in the order it gives them. -/
def reportFailures (failures : List ParseFailure) (source : String) (queue : Queue digest) :
    Queue digest :=
  let table := LineTable.ofSource source
  (failuresToReport failures).foldl
    (fun queue failure =>
      (queue.emitWithTable (LoweringError.parse failure).toDiagnostic table source).2)
    queue

/-- Parses and lowers a text. -/
def run {α : Type} (entry : EntryPoint) (lower : Tree → Lowered α) (source : String)
    (parser : GrammarParser) (queue : Queue digest) : Option α × Queue digest :=
  match parser source entry with
  | .error failures => (none, reportFailures failures source queue)
  | .ok root =>
    match lower root with
    | .ok result => (some result, queue)
    | .error error => (none, (report error source queue).2)

/-- Reads a file. -/
def parseProgram (source : String) (parser : GrammarParser) (queue : Queue digest) :
    Option Program × Queue digest :=
  run .fileInput lowerFileInput source parser queue

/-- Reads one interactive statement. -/
def parseInteractive (source : String) (parser : GrammarParser) (queue : Queue digest) :
    Option Program × Queue digest :=
  run .singleInput lowerSingleInput source parser queue

/-- Reads an expression on its own. -/
def parseExpression (source : String) (parser : GrammarParser) (queue : Queue digest) :
    Option Expr × Queue digest :=
  run .evalInput lowerEvalInput source parser queue

end ScriptLowering
