import ScriptLowering.Report.Diagnostic
import ScriptLowering.Report.LineTable

/-!
# A queue of diagnostics

A queue collects diagnostics with their positions.  It takes no more once as
many errors as its limit allows are queued, and it may leave out an error that
repeats the last one: a syntax error on the line of the last syntax error, or
another error on the line of the last such error whose message begins in the
same way.  Of the beginning of a message it keeps a digest only, so that two
beginnings with one digest look the same.  Flushing gives the diagnostics in the
order of their positions.

Main definitions:

- `Digest`: what a queue keeps of the beginning of a message.
- `Queue.add`: adds a diagnostic unless it is left out.
- `Queue.emit` and its siblings: report an error and give a guarantee for it.
- `Queue.merge`: takes over the diagnostics of another queue.
- `Queue.flush`: gives up the diagnostics, sorted by position.
-/

namespace ScriptLowering

/-- How a queue decides what to leave out. -/
structure QueueConfig where
  /-- The number of errors that a queue takes; zero means any number. -/
  errorLimit : Nat
  /-- Leave out errors that repeat the last one. -/
  deduplicate : Bool
deriving DecidableEq

namespace QueueConfig

/-- Ten errors, without repetitions. -/
def default : QueueConfig := ⟨10, true⟩

/-- Any number of errors, with repetitions. -/
def unlimited : QueueConfig := ⟨0, false⟩

instance : Inhabited QueueConfig := ⟨default⟩

end QueueConfig

/-- What a queue keeps of the beginning of a message: a code, by which it tells one beginning
from another. -/
structure Digest where
  Code : Type
  decEq : DecidableEq Code
  code : List Char → Code

namespace Digest

instance (digest : Digest) : DecidableEq digest.Code :=
  digest.decEq

/-- The digest that keeps the beginnings themselves. -/
def exact : Digest := ⟨List Char, inferInstance, id⟩

end Digest

/-- A queued diagnostic and its position. -/
structure QueueEntry where
  diagnostic : Diagnostic
  position : Position
deriving DecidableEq, Inhabited

/-- The sign that an error was reported.  Only the operations of this module give one. -/
structure ErrorGuarantee where
  private mk ::
deriving DecidableEq

namespace ErrorGuarantee

/-- The text of the sign. -/
def text (_ : ErrorGuarantee) : String :=
  "error(s) emitted"

/-- A count of errors is a sign when it is not zero. -/
def ofErrorCount? (count : Nat) : Option ErrorGuarantee :=
  if 0 < count then some ⟨⟩ else none

end ErrorGuarantee

/-- Diagnostics in the order they were added, with what is needed to leave out repetitions. -/
structure Queue (digest : Digest := .exact) where
  config : QueueConfig
  entries : List QueueEntry
  errorCount : Nat
  /-- The line of the last syntax error. -/
  lastSyntaxLine : Option UInt32
  /-- The line of the last other error, and the digest of how its message begins. -/
  lastError : Option (UInt32 × digest.Code)
deriving DecidableEq, Inhabited

namespace Queue

variable {digest : Digest}

/-! ## Making and inspecting a queue -/

/-- The queue without diagnostics. -/
def ofConfig (config : QueueConfig) : Queue digest where
  config := config
  entries := []
  errorCount := 0
  lastSyntaxLine := none
  lastError := none

/-- The number of diagnostics. -/
def size (queue : Queue digest) : Nat :=
  queue.entries.length

def isEmpty (queue : Queue digest) : Bool :=
  queue.entries.isEmpty

/-- The queue takes no more diagnostics. -/
def limitReached (queue : Queue digest) : Bool :=
  0 < queue.config.errorLimit && queue.config.errorLimit ≤ queue.errorCount

/-- The sign that the queue holds an error. -/
def hasErrors? (queue : Queue digest) : Option ErrorGuarantee :=
  ErrorGuarantee.ofErrorCount? queue.errorCount

/-- The diagnostics in the order they were added. -/
def diagnostics (queue : Queue digest) : List Diagnostic :=
  queue.entries.map QueueEntry.diagnostic

/-- The number of diagnostics with a code. -/
def countCode (queue : Queue digest) (code : Code) : Nat :=
  queue.entries.countP fun entry => entry.diagnostic.code == code

/-! ## Adding -/

/-- The length of the beginning of a message that repetitions share. -/
def beginningLength : Nat := 30

/-- How a message begins. -/
def beginning (message : String) : List Char :=
  message.toList.take beginningLength

/-- An error that repeats the last one of its class, as far as the digest tells. -/
def isRepetition (queue : Queue digest) (diagnostic : Diagnostic) (line : UInt32) : Bool :=
  diagnostic.isError &&
    if diagnostic.code.isSyntaxError then queue.lastSyntaxLine == some line
    else queue.lastError == some (line, digest.code (beginning diagnostic.message))

/-- Adds a diagnostic at the end; an error is counted and becomes the last one of its class. -/
def push (queue : Queue digest) (diagnostic : Diagnostic) (position : Position) : Queue digest :=
  let queue := { queue with entries := queue.entries ++ [⟨diagnostic, position⟩] }
  if diagnostic.isError then
    let queue := { queue with errorCount := queue.errorCount + 1 }
    if diagnostic.code.isSyntaxError then { queue with lastSyntaxLine := some position.line }
    else
      { queue with
        lastError := some (position.line, digest.code (beginning diagnostic.message)) }
  else queue

@[simp]
theorem config_push (queue : Queue digest) (diagnostic : Diagnostic) (position : Position) :
    (queue.push diagnostic position).config = queue.config := by
  unfold push
  dsimp only
  split
  · split <;> rfl
  · rfl

/-- A diagnostic that is taken stands at the end. -/
@[simp]
theorem entries_push (queue : Queue digest) (diagnostic : Diagnostic) (position : Position) :
    (queue.push diagnostic position).entries = queue.entries ++ [⟨diagnostic, position⟩] := by
  unfold push
  dsimp only
  split
  · split <;> rfl
  · rfl

/-- An error that is taken is counted, and nothing else is. -/
@[simp]
theorem errorCount_push (queue : Queue digest) (diagnostic : Diagnostic) (position : Position) :
    (queue.push diagnostic position).errorCount =
      queue.errorCount + if diagnostic.isError then 1 else 0 := by
  unfold push
  dsimp only
  split
  · split <;> rfl
  · rfl

/-- A diagnostic that the queue leaves out. -/
def leavesOut (queue : Queue digest) (diagnostic : Diagnostic) (line : UInt32) : Bool :=
  queue.limitReached || (queue.config.deduplicate && queue.isRepetition diagnostic line)

/-- Adds a diagnostic unless it is left out, and tells whether it was added. -/
def add (queue : Queue digest) (diagnostic : Diagnostic) (position : Position) :
    Bool × Queue digest :=
  if queue.leavesOut diagnostic position.line then (false, queue)
  else (true, queue.push diagnostic position)

/-- A diagnostic that is left out changes nothing. -/
theorem add_of_leavesOut {queue : Queue digest} {diagnostic : Diagnostic} {position : Position}
    (h : queue.leavesOut diagnostic position.line = true) :
    queue.add diagnostic position = (false, queue) := by
  rw [add, if_pos h]

/-- A diagnostic that is not left out is taken. -/
theorem add_of_not_leavesOut {queue : Queue digest} {diagnostic : Diagnostic} {position : Position}
    (h : queue.leavesOut diagnostic position.line = false) :
    queue.add diagnostic position = (true, queue.push diagnostic position) := by
  rw [add, if_neg (by simp [h])]

/-! ## Reporting -/

/-- Reports an error at a position. -/
def emit (queue : Queue digest) (diagnostic : Diagnostic) (position : Position) :
    ErrorGuarantee × Queue digest :=
  (⟨⟩, (queue.add diagnostic position).2)

/-- The position of a diagnostic: where its primary span starts, or the origin. -/
def positionOf (table : LineTable) (source : String) (diagnostic : Diagnostic) : Position :=
  match diagnostic.primarySpan? with
  | some span => table.positionAt source span.start
  | none => .origin

/-- Reports an error at the position that a line table gives it. -/
def emitWithTable (queue : Queue digest) (diagnostic : Diagnostic) (table : LineTable)
    (source : String) : ErrorGuarantee × Queue digest :=
  queue.emit diagnostic (positionOf table source diagnostic)

/-- Reports an error at its position in a text. -/
def emitWithSource (queue : Queue digest) (diagnostic : Diagnostic) (source : String) :
    ErrorGuarantee × Queue digest :=
  queue.emitWithTable diagnostic (.ofSource source) source

/-! ## Merging and flushing -/

/-- Takes over the diagnostics of another queue without leaving any out, and forgets the last
errors.  The number of diagnostics taken over is given back. -/
def merge (queue other : Queue digest) : Nat × Queue digest :=
  (other.size,
    { queue with
      entries := queue.entries ++ other.entries
      errorCount := queue.errorCount + other.errorCount
      lastSyntaxLine := none
      lastError := none })

@[simp]
theorem merge_fst (queue other : Queue digest) : (queue.merge other).1 = other.entries.length :=
  rfl

@[simp]
theorem entries_merge (queue other : Queue digest) :
    (queue.merge other).2.entries = queue.entries ++ other.entries :=
  rfl

@[simp]
theorem errorCount_merge (queue other : Queue digest) :
    (queue.merge other).2.errorCount = queue.errorCount + other.errorCount :=
  rfl

/-- An entry stands no later than another. -/
def entryIsLe (a b : QueueEntry) : Bool :=
  a.position.isLe b.position

/-- Every entry of a list stands no later than the next one. -/
def isSorted : List QueueEntry → Bool
  | [] => true
  | [_] => true
  | a :: b :: rest => entryIsLe a b && isSorted (b :: rest)

/-- The entries of a queue by position, those at one position in the order they were added.  A queue
that was filled in the order of positions need not be sorted. -/
def sorted (entries : List QueueEntry) : List QueueEntry :=
  if isSorted entries then entries else entries.mergeSort entryIsLe

/-- Gives up the diagnostics by position and starts anew. -/
def flush (queue : Queue digest) : List Diagnostic × Queue digest :=
  ((sorted queue.entries).map QueueEntry.diagnostic, ofConfig queue.config)

@[simp]
theorem flush_snd (queue : Queue digest) : queue.flush.2 = ofConfig queue.config :=
  rfl

end Queue

end ScriptLowering
