import ScriptLowering.Proofs.QueueFiltering

/-!
# What a fresh queue retains

A queue that is filled from a fresh one decides by what it took so far what it takes
next.  What it left out leaves no trace, so that the diagnostics it holds are enough to
fill another queue in the same way.  Of the diagnostics it holds, few matter for the next
decision: warnings are never remembered and never counted, and each kind of error has a
memory of its own.  As long as no limit counts the errors of both kinds together, the
kinds do not interfere.

All that follows holds for every digest of the beginnings of messages.

Main results:

- Theorem `Queue.replay_retained`: a fresh queue is filled in the same way by what
  another one retained.
- Definition `Queue.Restricts`: a queue is another one reduced to some kinds of
  diagnostics.
- Theorem `Queue.Restricts.addAll`: a queue that is reduced stays so while it is
  given diagnostics of these kinds only.
- Theorem `Queue.kindsApart`: warnings do not interfere with errors, and without a limit
  no kind of diagnostics interferes with another.
-/

namespace ScriptLowering

/-! ## Kinds of diagnostics -/

/-- The kinds of diagnostics that a queue tells apart. -/
inductive DiagnosticKind where
  | warning | syntaxError | otherError
deriving DecidableEq

namespace Diagnostic

/-- The kind of a diagnostic. -/
def kind (diagnostic : Diagnostic) : DiagnosticKind :=
  if diagnostic.isError then
    if diagnostic.code.isSyntaxError then .syntaxError else .otherError
  else .warning

/-- The errors are the diagnostics that are no warnings. -/
theorem isError_eq (diagnostic : Diagnostic) :
    diagnostic.isError = decide (diagnostic.kind ≠ .warning) := by
  unfold kind
  cases diagnostic.isError <;> cases diagnostic.code.isSyntaxError <;> rfl

/-- The syntax errors are a kind of their own. -/
theorem isSyntaxError_eq (diagnostic : Diagnostic) :
    diagnostic.isSyntaxError = decide (diagnostic.kind = .syntaxError) := by
  unfold kind isSyntaxError
  cases diagnostic.isError <;> cases diagnostic.code.isSyntaxError <;> rfl

/-- The other errors are a kind of their own. -/
theorem isOtherError_eq (diagnostic : Diagnostic) :
    diagnostic.isOtherError = decide (diagnostic.kind = .otherError) := by
  unfold kind isOtherError
  cases diagnostic.isError <;> cases diagnostic.code.isSyntaxError <;> rfl

end Diagnostic

/-- The kind of the diagnostic of an entry. -/
def QueueEntry.kind (entry : QueueEntry) : DiagnosticKind :=
  entry.diagnostic.kind

namespace Queue

variable {digest : Digest}

/-! ## What is retained -/

/-- A fresh queue is filled in the same way by what another one retained: it takes all of
these diagnostics, and in the end it is the same queue, with the same count of errors and
the same memory. -/
theorem replay_retained (config : QueueConfig) (entries : List QueueEntry) :
    (ofConfig config : Queue digest).TakesAll
        ((ofConfig config : Queue digest).addAll entries).entries ∧
      (ofConfig config : Queue digest).addAll
          ((ofConfig config : Queue digest).addAll entries).entries =
        (ofConfig config).addAll entries := by
  obtain ⟨taken, -, hentries, htakes, hsame⟩ :=
    exists_taken (ofConfig config : Queue digest) entries
  have htaken : ((ofConfig config : Queue digest).addAll entries).entries = taken := hentries
  rw [htaken]
  exact ⟨htakes, hsame⟩

/-! ## Kinds of diagnostics in a queue -/

/-- An error is a repetition by the memory of its kind; a warning is none. -/
theorem isRepetition_eq (queue : Queue digest) (diagnostic : Diagnostic) (line : UInt32) :
    queue.isRepetition diagnostic line =
      match diagnostic.kind with
      | .warning => false
      | .syntaxError => queue.lastSyntaxLine == some line
      | .otherError =>
        queue.lastError == some (line, digest.code (beginning diagnostic.message)) := by
  unfold isRepetition Diagnostic.kind
  cases diagnostic.isError <;> cases diagnostic.code.isSyntaxError <;> rfl

/-- A queue is another one reduced to some kinds of diagnostics: it holds the diagnostics
of these kinds that the other queue holds, and it decides about further ones by the same
memory.  The errors count only where there is a limit on them. -/
structure Restricts (kept : DiagnosticKind → Bool) (reduced queue : Queue digest) : Prop where
  config_eq : reduced.config = queue.config
  entries_eq : reduced.entries = queue.entries.filter fun entry => kept entry.kind
  errorCount_eq : 0 < queue.config.errorLimit → reduced.errorCount = queue.errorCount
  lastSyntaxLine_eq : kept .syntaxError → reduced.lastSyntaxLine = queue.lastSyntaxLine
  lastError_eq : kept .otherError → reduced.lastError = queue.lastError

/-- Some kinds of diagnostics have a limit to themselves: there is none, or both kinds of
errors, which are counted together, are among them. -/
def HasOwnLimit (kept : DiagnosticKind → Bool) (config : QueueConfig) : Prop :=
  config.errorLimit = 0 ∨ kept .syntaxError ∧ kept .otherError

/-- A fresh queue holds nothing and remembers nothing, and is reduced to any kinds. -/
theorem restricts_ofConfig (kept : DiagnosticKind → Bool) (config : QueueConfig) :
    (ofConfig config : Queue digest).Restricts kept (ofConfig config) :=
  ⟨rfl, rfl, fun _ => rfl, fun _ => rfl, fun _ => rfl⟩

namespace Restricts

variable {kept : DiagnosticKind → Bool} {reduced queue : Queue digest}
  {diagnostic : Diagnostic} {position : Position}

/-- Both queues reach the limit at the same time. -/
theorem limitReached_eq (h : reduced.Restricts kept queue) :
    reduced.limitReached = queue.limitReached := by
  unfold limitReached
  rw [h.config_eq]
  by_cases hlimit : 0 < queue.config.errorLimit
  · rw [h.errorCount_eq hlimit]
  · simp [hlimit]

/-- Both queues leave out the same diagnostics of these kinds. -/
theorem leavesOut_eq (h : reduced.Restricts kept queue) (hkept : kept diagnostic.kind)
    (line : UInt32) :
    reduced.leavesOut diagnostic line = queue.leavesOut diagnostic line := by
  have hrepetition :
      reduced.isRepetition diagnostic line =
        queue.isRepetition diagnostic line := by
    rw [isRepetition_eq, isRepetition_eq]
    cases hkind : diagnostic.kind with
    | warning => rfl
    | syntaxError => simp only [h.lastSyntaxLine_eq (hkind ▸ hkept)]
    | otherError => simp only [h.lastError_eq (hkind ▸ hkept)]
  rw [leavesOut, leavesOut, h.limitReached_eq, h.config_eq, hrepetition]

/-- A diagnostic of these kinds that is taken by both queues. -/
theorem push_push (h : reduced.Restricts kept queue) (hkept : kept diagnostic.kind) :
    (reduced.push diagnostic position).Restricts kept (queue.push diagnostic position) where
  config_eq := by rw [config_push, config_push, h.config_eq]
  entries_eq := by
    have hentry : [(⟨diagnostic, position⟩ : QueueEntry)].filter (fun entry => kept entry.kind) =
        [⟨diagnostic, position⟩] := by
      simp [QueueEntry.kind, hkept]
    rw [entries_push, entries_push, List.filter_append, hentry, h.entries_eq]
  errorCount_eq hlimit := by
    rw [config_push] at hlimit
    rw [errorCount_push, errorCount_push, h.errorCount_eq hlimit]
  lastSyntaxLine_eq hsyntax := by
    rw [lastSyntaxLine_push, lastSyntaxLine_push, h.lastSyntaxLine_eq hsyntax]
  lastError_eq hother := by rw [lastError_push, lastError_push, h.lastError_eq hother]

/-- A diagnostic of another kind that is taken by the queue that is not reduced. -/
theorem push_right (h : reduced.Restricts kept queue) (hlimits : HasOwnLimit kept queue.config)
    (hkept : kept diagnostic.kind = false) :
    reduced.Restricts kept (queue.push diagnostic position) where
  config_eq := by rw [config_push, h.config_eq]
  entries_eq := by
    have hentry : [(⟨diagnostic, position⟩ : QueueEntry)].filter (fun entry => kept entry.kind) =
        [] := by
      simp [QueueEntry.kind, hkept]
    rw [entries_push, List.filter_append, hentry, List.append_nil, h.entries_eq]
  errorCount_eq hlimit := by
    rw [config_push] at hlimit
    -- With a limit all errors are of these kinds, so this is a warning.
    have hwarning : diagnostic.isError = false := by
      rw [Diagnostic.isError_eq]
      cases hkind : diagnostic.kind <;> simp_all [HasOwnLimit]
    rw [errorCount_push, hwarning, h.errorCount_eq hlimit]
    rfl
  lastSyntaxLine_eq hsyntax := by
    have hkind : diagnostic.kind ≠ .syntaxError := fun hkind => by simp_all
    rw [lastSyntaxLine_push, Diagnostic.isSyntaxError_eq, if_neg (by simpa using hkind),
      h.lastSyntaxLine_eq hsyntax]
  lastError_eq hother := by
    have hkind : diagnostic.kind ≠ .otherError := fun hkind => by simp_all
    rw [lastError_push, Diagnostic.isOtherError_eq, if_neg (by simpa using hkind),
      h.lastError_eq hother]

/-- A diagnostic of these kinds that is added to both queues. -/
theorem add_add (h : reduced.Restricts kept queue) (hkept : kept diagnostic.kind) :
    (reduced.add diagnostic position).2.Restricts kept
      (queue.add diagnostic position).2 := by
  have hsame : reduced.leavesOut diagnostic position.line =
      queue.leavesOut diagnostic position.line :=
    h.leavesOut_eq hkept position.line
  cases hout : queue.leavesOut diagnostic position.line with
  | true =>
      rw [add_of_leavesOut hout, add_of_leavesOut (hsame.trans hout)]
      exact h
  | false =>
      rw [add_of_not_leavesOut hout, add_of_not_leavesOut (hsame.trans hout)]
      exact h.push_push hkept

/-- A diagnostic of another kind that is added to the queue that is not reduced. -/
theorem add_right (h : reduced.Restricts kept queue) (hlimits : HasOwnLimit kept queue.config)
    (hkept : kept diagnostic.kind = false) :
    reduced.Restricts kept (queue.add diagnostic position).2 := by
  cases hout : queue.leavesOut diagnostic position.line with
  | true =>
      rw [add_of_leavesOut hout]
      exact h
  | false =>
      rw [add_of_not_leavesOut hout]
      exact h.push_right hlimits hkept

/-- A queue that is reduced to some kinds stays so when one is given diagnostics and the
other only those of these kinds. -/
theorem addAll (h : reduced.Restricts kept queue) (hlimits : HasOwnLimit kept queue.config)
    (entries : List QueueEntry) :
    (reduced.addAll (entries.filter fun entry => kept entry.kind)).Restricts kept
      (queue.addAll entries) := by
  induction entries generalizing reduced queue with
  | nil => exact h
  | cons entry entries ih =>
      have hconfig : HasOwnLimit kept
          (queue.add entry.diagnostic entry.position).2.config := by
        rw [config_add]
        exact hlimits
      rw [addAll_cons]
      cases hkept : kept entry.kind with
      | true =>
          rw [List.filter_cons, if_pos hkept, addAll_cons]
          exact ih (h.add_add hkept) hconfig
      | false =>
          rw [List.filter_cons, if_neg (by simp [hkept])]
          exact ih (h.add_right hlimits hkept) hconfig

end Restricts

/-- What a fresh queue retains of some kinds of diagnostics that have a limit to
themselves is what it retains when it is given no others. -/
theorem filter_entries_addAll (digest : Digest) {kept : DiagnosticKind → Bool}
    {config : QueueConfig} (h : HasOwnLimit kept config) (entries : List QueueEntry) :
    ((ofConfig config : Queue digest).addAll entries).entries.filter
        (fun entry => kept entry.kind) =
      ((ofConfig config : Queue digest).addAll
        (entries.filter fun entry => kept entry.kind)).entries :=
  ((restricts_ofConfig kept config).addAll h entries).entries_eq.symm

/-- Kinds of diagnostics do not interfere with each other in a fresh queue.  The errors that
it retains, and their order and positions, are the same when it is given no warnings.
Without a limit, what it retains of any one kind is what it retains when it is given this
kind only. -/
theorem kindsApart (digest : Digest) (config : QueueConfig) (entries : List QueueEntry) :
    ((ofConfig config : Queue digest).addAll entries).entries.filter
        (fun entry => entry.diagnostic.isError) =
      ((ofConfig config : Queue digest).addAll
        (entries.filter fun entry => entry.diagnostic.isError)).entries ∧
    (config.errorLimit = 0 → ∀ kind : DiagnosticKind,
      ((ofConfig config : Queue digest).addAll entries).entries.filter
          (fun entry => decide (entry.kind = kind)) =
        ((ofConfig config : Queue digest).addAll
          (entries.filter fun entry => decide (entry.kind = kind))).entries) := by
  constructor
  · have herror : (fun entry : QueueEntry => entry.diagnostic.isError) =
        fun entry => decide (entry.kind ≠ .warning) :=
      funext fun entry => entry.diagnostic.isError_eq
    have hlimits : HasOwnLimit (fun kind => decide (kind ≠ .warning)) config :=
      Or.inr ⟨rfl, rfl⟩
    rw [herror]
    exact filter_entries_addAll digest hlimits entries
  · intro hlimit kind
    have hlimits : HasOwnLimit (fun other => decide (other = kind)) config := Or.inl hlimit
    exact filter_entries_addAll digest hlimits entries

/-- Diagnostics of all kinds on two lines; each error on the first line comes twice. -/
def mixedEntries : List QueueEntry :=
  [ ⟨syntaxError, ⟨1, 1⟩⟩, ⟨{ lambdaError with severity := .warning }, ⟨1, 2⟩⟩,
    ⟨lambdaError, ⟨1, 3⟩⟩, ⟨syntaxError, ⟨1, 9⟩⟩,
    ⟨{ lambdaError with severity := .warning }, ⟨1, 11⟩⟩, ⟨listError, ⟨1, 12⟩⟩,
    ⟨syntaxError, ⟨2, 1⟩⟩]

/-- The repetitions are left out, whatever stands between them and what they repeat. -/
theorem kindsApart_mixedEntries :
    (((ofConfig ⟨0, true⟩ : Queue .firstLetter).addAll mixedEntries).entries.filter
        fun entry => entry.diagnostic.isError) =
      ((ofConfig ⟨0, true⟩ : Queue .firstLetter).addAll
        [ ⟨syntaxError, ⟨1, 1⟩⟩, ⟨lambdaError, ⟨1, 3⟩⟩, ⟨syntaxError, ⟨1, 9⟩⟩,
          ⟨listError, ⟨1, 12⟩⟩, ⟨syntaxError, ⟨2, 1⟩⟩]).entries ∧
      (⟨0, true⟩ : QueueConfig).errorLimit = 0 ∧
      (((ofConfig ⟨0, true⟩ : Queue .firstLetter).addAll mixedEntries).entries.filter
          fun entry => decide (entry.kind = .syntaxError)) =
        [⟨syntaxError, ⟨1, 1⟩⟩, ⟨syntaxError, ⟨2, 1⟩⟩] := by
  obtain ⟨herrors, hkinds⟩ := kindsApart .firstLetter ⟨0, true⟩ mixedEntries
  refine ⟨herrors, rfl, ?_⟩
  rw [hkinds rfl .syntaxError]
  decide

end Queue

end ScriptLowering
