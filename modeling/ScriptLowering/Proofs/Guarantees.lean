import ScriptLowering.Proofs.QueueFiltering

/-!
# What a guarantee is worth

A report gives a guarantee that an error was reported, and does so for every
diagnostic.  When the diagnostic is an error, the queue holds an error afterwards,
even if this one is left out.  A warning is no error and leaves the queue without
one when it had none before, so that the guarantee for a warning may be empty.

Main results:

- Definition `Queue.Reports`: the ways to report a diagnostic.
- Theorem `Queue.Coherent.hasErrors?_add_iff`: when a queue holds an error after a
  diagnostic was added.
- Theorem `Queue.GrowsTo.hasErrors?`: a queue that holds an error keeps holding one
  until it is flushed.
- Theorem `Queue.guarantee_reportedWarning`: a guarantee without an error.
- Theorem `Queue.Reachable.guarantee_holds_iff`: when a guarantee is right.
-/

namespace ScriptLowering
namespace Queue

variable {digest : Digest}

/-! ## Reports -/

/-- A diagnostic is reported to a queue, with the guarantee and the queue that the
report gives: at a position, at the one that a line table gives it, or at its
position in a text. -/
inductive Reports (queue : Queue digest) (diagnostic : Diagnostic) :
    ErrorGuarantee × Queue digest → Prop
  | atPosition (position : Position) : Reports queue diagnostic (queue.emit diagnostic position)
  | withTable (table : LineTable) (source : String) :
      Reports queue diagnostic (queue.emitWithTable diagnostic table source)
  | withSource (source : String) :
      Reports queue diagnostic (queue.emitWithSource diagnostic source)

/-- A report adds its diagnostic somewhere. -/
theorem Reports.exists_add {queue : Queue digest} {diagnostic : Diagnostic}
    {result : ErrorGuarantee × Queue digest} (h : queue.Reports diagnostic result) :
    ∃ position, result.2 = (queue.add diagnostic position).2 := by
  cases h with
  | atPosition position => exact ⟨position, rfl⟩
  | withTable table source => exact ⟨positionOf table source diagnostic, rfl⟩
  | withSource source => exact ⟨positionOf (.ofSource source) source diagnostic, rfl⟩

/-! ## Errors that a queue holds -/

/-- A warning is not counted. -/
theorem errorCount_add_of_not_isError {queue : Queue digest} {diagnostic : Diagnostic}
    (h : ¬ diagnostic.isError) (position : Position) :
    (queue.add diagnostic position).2.errorCount = queue.errorCount := by
  unfold Queue.add
  split
  · rfl
  · rw [errorCount_push, if_neg h, Nat.add_zero]

/-- A queue holds an error after a diagnostic was added exactly when the diagnostic
is one or the queue held one before. -/
theorem Coherent.hasErrors?_add_iff {queue : Queue digest} (h : queue.Coherent)
    (diagnostic : Diagnostic) (position : Position) :
    (queue.add diagnostic position).2.hasErrors?.isSome ↔
      diagnostic.isError ∨ queue.hasErrors?.isSome := by
  rw [Queue.isSome_hasErrors?_iff, Queue.isSome_hasErrors?_iff]
  by_cases herror : diagnostic.isError
  · simp only [herror, true_or, iff_true]
    exact h.errorCount_pos_add herror position
  · rw [errorCount_add_of_not_isError herror]
    simp only [herror, Bool.false_eq_true, false_or]

/-- A queue becomes another one without being flushed: diagnostics are added and
other queues merged in. -/
inductive GrowsTo (queue : Queue digest) : Queue digest → Prop
  | refl : GrowsTo queue queue
  | add {later : Queue digest} (h : GrowsTo queue later) (diagnostic : Diagnostic)
      (position : Position) : GrowsTo queue (later.add diagnostic position).2
  | merge {later : Queue digest} (h : GrowsTo queue later) (other : Queue digest) :
      GrowsTo queue (later.merge other).2

/-- A queue that grows loses no error. -/
theorem GrowsTo.errorCount_le {queue later : Queue digest} (h : queue.GrowsTo later) :
    queue.errorCount ≤ later.errorCount := by
  induction h with
  | refl => exact Nat.le_refl _
  | add _ diagnostic position ih => exact Nat.le_trans ih (errorCount_le_add _ _ _)
  | merge _ other ih =>
      rw [errorCount_merge]
      exact Nat.le_add_right_of_le ih

/-- A queue that holds an error keeps holding one until it is flushed. -/
theorem GrowsTo.hasErrors? {queue later : Queue digest} (h : queue.GrowsTo later)
    (herrors : queue.hasErrors?.isSome) : later.hasErrors?.isSome := by
  rw [isSome_hasErrors?_iff] at herrors ⊢
  exact Nat.lt_of_lt_of_le herrors h.errorCount_le

/-! ## Guarantees -/

/-- A warning about a lambda expression. -/
def lambdaWarning : Diagnostic :=
  { lambdaError with severity := .warning }

/-- The report of a warning to a fresh queue gives a guarantee, but the queue holds
only the warning afterwards. -/
theorem guarantee_reportedWarning :
    ∃ (queue : Queue .exact) (result : ErrorGuarantee × Queue .exact),
      queue.Reachable ∧ queue.Reports lambdaWarning result ∧
      result.2.entries = [⟨lambdaWarning, ⟨1, 1⟩⟩] ∧ ¬ result.2.hasErrors?.isSome ∧
      ¬ ∃ entry ∈ result.2.entries, entry.diagnostic.isError :=
  ⟨ofConfig .default, _, .fresh .default, .atPosition ⟨1, 1⟩, by decide, by decide, by decide⟩

/-- The guarantee that a report gives is right exactly when the diagnostic is an
error or the queue held an error before: then there is a sign of errors, and then
an error is queued. -/
theorem Reachable.guarantee_holds_iff {queue : Queue digest} {diagnostic : Diagnostic}
    {result : ErrorGuarantee × Queue digest} (h : queue.Reachable)
    (hreport : queue.Reports diagnostic result) :
    (result.2.hasErrors?.isSome ↔ diagnostic.isError ∨ queue.hasErrors?.isSome) ∧
      ((∃ entry ∈ result.2.entries, entry.diagnostic.isError) ↔
        diagnostic.isError ∨ ∃ entry ∈ queue.entries, entry.diagnostic.isError) := by
  obtain ⟨position, hresult⟩ := hreport.exists_add
  have hcoherent := h.coherent
  have hafter := hcoherent.add diagnostic position
  rw [hresult, ← hafter.isSome_hasErrors?_iff, ← hcoherent.isSome_hasErrors?_iff]
  exact ⟨hcoherent.hasErrors?_add_iff diagnostic position,
    hcoherent.hasErrors?_add_iff diagnostic position⟩

/-- A queue whose limit is reached with one error. -/
def fullQueue : Queue .exact :=
  ((ofConfig ⟨1, true⟩).emit lambdaError ⟨1, 5⟩).2

/-- A full queue leaves a syntax error out, and the guarantee for it is right. -/
theorem guarantee_holds_fullQueue :
    fullQueue.Reachable ∧ fullQueue.Reports syntaxError (fullQueue.emitWithSource syntaxError "(") ∧
      (fullQueue.emitWithSource syntaxError "(").2 = fullQueue ∧
      (fullQueue.emitWithSource syntaxError "(").2.hasErrors?.isSome ∧
      ∃ entry ∈ (fullQueue.emitWithSource syntaxError "(").2.entries, entry.diagnostic.isError := by
  have hreachable : fullQueue.Reachable := (HasHistory.fresh _).emit _ _
  have hreport : fullQueue.Reports syntaxError (fullQueue.emitWithSource syntaxError "(") :=
    .withSource "("
  have hholds := hreachable.guarantee_holds_iff hreport
  exact ⟨hreachable, hreport, by decide, hholds.1.mpr (Or.inl rfl), hholds.2.mpr (Or.inl rfl)⟩

end Queue
end ScriptLowering
