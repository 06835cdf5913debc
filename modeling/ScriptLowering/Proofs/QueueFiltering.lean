import Mathlib.Data.List.Chain
import ScriptLowering.Proofs.QueueHistory

/-!
# What a queue leaves out

A queue tells a repeated error by the line of the last error of its class and,
unless both are syntax errors, by the digest of how the message begins.  Without
merges nothing interferes with this memory: the queue keeps to its limit and holds
no repetition next to what it repeats, whatever the digest is, since a digest never
tells equal beginnings apart.

Main results:

- Definition `Queue.KeepsApart`: no two entries of a class that follow each other
  have the same key.
- Theorem `Queue.HasHistory.filtered`: along a history without merges repetitions
  are kept apart.
- Theorem `Queue.HasHistory.filters`: without merges, a queue keeps to its limit,
  holds no repetition next to what it repeats, and either takes a diagnostic or
  stays as it was.
-/

namespace ScriptLowering
namespace Queue

/-! ## Repetitions next to each other -/

/-- What a syntax error shares with its repetitions. -/
def syntaxKey (entry : QueueEntry) : UInt32 :=
  entry.position.line

/-- What any other error shares with its repetitions. -/
def otherKey (entry : QueueEntry) : UInt32 × List Char :=
  (entry.position.line, beginning entry.diagnostic.message)

/-- No two entries of a class that follow each other, with nothing or with entries
of other classes between them, have the same key. -/
def KeepsApart {κ : Type} (entries : List QueueEntry) (isOfClass : Diagnostic → Bool)
    (key : QueueEntry → κ) : Prop :=
  (entries.filter fun entry => isOfClass entry.diagnostic).IsChain
    fun first second => key first ≠ key second

/-- An entry at the end keeps apart from its class when its key is not that of
the last entry of the class. -/
theorem KeepsApart.concat {κ : Type} {entries : List QueueEntry} {entry : QueueEntry}
    {isOfClass : Diagnostic → Bool} {key : QueueEntry → κ} (h : KeepsApart entries isOfClass key)
    (hnew : isOfClass entry.diagnostic → (lastOf? entries isOfClass).map key ≠ some (key entry)) :
    KeepsApart (entries ++ [entry]) isOfClass key := by
  unfold KeepsApart
  rw [List.filter_append]
  by_cases hclass : isOfClass entry.diagnostic
  · have hone : [entry].filter (fun entry => isOfClass entry.diagnostic) = [entry] := by
      simp [hclass]
    rw [hone, List.isChain_append]
    refine ⟨h, List.isChain_singleton entry, ?_⟩
    intro last hlast second hsecond
    rw [List.head?_singleton, Option.mem_some_iff] at hsecond
    subst second
    intro hkey
    refine hnew hclass ?_
    rw [lastOf?, Option.mem_def.mp hlast, Option.map_some, hkey]
  · have hnone : [entry].filter (fun entry => isOfClass entry.diagnostic) = [] := by
      simp [hclass]
    rw [hnone, List.append_nil]
    exact h

section Filtering

variable {digest : Digest}

/-- What a queue remembers of an error that is no syntax error. -/
def otherMemory (digest : Digest) (entry : QueueEntry) : UInt32 × digest.Code :=
  (entry.position.line, digest.code (beginning entry.diagnostic.message))

/-- What a queue without merges holds: no more errors than its limit allows, and
no repetition next to what it repeats.  Its memory is that of the last errors,
which is what a new error is compared with. -/
structure Filtered (queue : Queue digest) : Prop where
  errorCount_le : 0 < queue.config.errorLimit → queue.errorCount ≤ queue.config.errorLimit
  lastSyntaxLine_eq :
    queue.lastSyntaxLine = (lastOf? queue.entries Diagnostic.isSyntaxError).map syntaxKey
  lastError_eq :
    queue.lastError = (lastOf? queue.entries Diagnostic.isOtherError).map (otherMemory digest)
  syntaxErrors : queue.config.deduplicate →
    KeepsApart queue.entries Diagnostic.isSyntaxError syntaxKey
  otherErrors : queue.config.deduplicate →
    KeepsApart queue.entries Diagnostic.isOtherError otherKey

/-- A fresh queue has nothing to keep apart. -/
theorem filtered_ofConfig (config : QueueConfig) : (ofConfig config : Queue digest).Filtered :=
  ⟨fun _ => Nat.zero_le _, rfl, rfl, fun _ => List.isChain_nil, fun _ => List.isChain_nil⟩

variable {queue : Queue digest} {diagnostic : Diagnostic} {position : Position}

/-- A syntax error that is taken is not on the line of the last one. -/
theorem lastSyntaxLine_ne_of_not_leavesOut (hdeduplicate : queue.config.deduplicate)
    (hclass : diagnostic.isSyntaxError)
    (htaken : queue.leavesOut diagnostic position.line = false) :
    queue.lastSyntaxLine ≠ some position.line := by
  rcases Bool.and_eq_true_iff.mp hclass with ⟨herror, hcode⟩
  intro hlast
  simp [leavesOut, isRepetition, hdeduplicate, herror, hcode, hlast] at htaken

/-- Any other error that is taken is not on the line of the last one, or its digest is
another one. -/
theorem lastError_ne_of_not_leavesOut (hdeduplicate : queue.config.deduplicate)
    (hclass : diagnostic.isOtherError)
    (htaken : queue.leavesOut diagnostic position.line = false) :
    queue.lastError ≠ some (position.line, digest.code (beginning diagnostic.message)) := by
  rcases Bool.and_eq_true_iff.mp hclass with ⟨herror, hcode⟩
  intro hlast
  simp [leavesOut, isRepetition, hdeduplicate, herror, hlast] at htaken
  simp [htaken] at hcode

/-- Taking a diagnostic keeps to the limit and keeps repetitions apart. -/
theorem Filtered.push (h : queue.Filtered)
    (htaken : queue.leavesOut diagnostic position.line = false) :
    (queue.push diagnostic position).Filtered := by
  constructor
  · intro hlimit
    rw [config_push] at hlimit ⊢
    have hroom : queue.limitReached = false := (Bool.or_eq_false_iff.mp htaken).1
    have hcount : queue.errorCount < queue.config.errorLimit := by
      simpa [limitReached, hlimit] using hroom
    rw [errorCount_push]
    split <;> omega
  · rw [lastSyntaxLine_push, entries_push, lastOf?_concat, h.lastSyntaxLine_eq]
    split <;> rfl
  · rw [lastError_push, entries_push, lastOf?_concat, h.lastError_eq]
    split <;> rfl
  · intro hdeduplicate
    rw [config_push] at hdeduplicate
    rw [entries_push]
    refine (h.syntaxErrors hdeduplicate).concat ?_
    intro hclass
    rw [← h.lastSyntaxLine_eq]
    exact lastSyntaxLine_ne_of_not_leavesOut hdeduplicate hclass htaken
  · intro hdeduplicate
    rw [config_push] at hdeduplicate
    rw [entries_push]
    refine (h.otherErrors hdeduplicate).concat ?_
    intro hclass hkey
    -- A digest never tells equal beginnings apart.
    refine lastError_ne_of_not_leavesOut hdeduplicate hclass htaken ?_
    rw [h.lastError_eq]
    obtain ⟨last, hlast, hsame⟩ := Option.map_eq_some_iff.mp hkey
    obtain ⟨hline, hbeginning⟩ := Prod.mk.inj hsame
    rw [hlast, Option.map_some, otherMemory, hline, hbeginning]

/-- Along a history without merges repetitions are kept apart. -/
theorem HasHistory.filtered (h : queue.HasHistory False) : queue.Filtered := by
  induction h with
  | fresh config => exact filtered_ofConfig config
  | @add queue _ diagnostic position ih =>
      by_cases hout : queue.leavesOut diagnostic position.line
      · rw [add_of_leavesOut hout]
        exact ih
      · have htaken := (Bool.not_eq_true _).mp hout
        rw [add_of_not_leavesOut htaken]
        exact ih.push htaken
  | merge hmerging => contradiction
  | flush => exact filtered_ofConfig _

/-- Without merges, a queue holds no more errors than its limit allows.  If it
leaves repetitions out, then of the syntax errors no two that follow each other
are on one line, and of the other errors no two that follow each other are on one
line and begin in the same way.  A diagnostic that is not added leaves the queue
as it was, and one that is added stands at its position at the end. -/
theorem HasHistory.filters (h : queue.HasHistory False) :
    (0 < queue.config.errorLimit → queue.errorCount ≤ queue.config.errorLimit) ∧
      (queue.config.deduplicate →
        KeepsApart queue.entries Diagnostic.isSyntaxError syntaxKey ∧
          KeepsApart queue.entries Diagnostic.isOtherError otherKey) ∧
      ∀ diagnostic position,
        ((queue.add diagnostic position).1 = false → (queue.add diagnostic position).2 = queue) ∧
        ((queue.add diagnostic position).1 = true →
          (queue.add diagnostic position).2.entries =
            queue.entries ++ [⟨diagnostic, position⟩]) := by
  have hfiltered := h.filtered
  refine ⟨hfiltered.errorCount_le, ?_, ?_⟩
  · intro hdeduplicate
    exact ⟨hfiltered.syntaxErrors hdeduplicate, hfiltered.otherErrors hdeduplicate⟩
  · intro diagnostic position
    exact ⟨snd_add_of_not_added, entries_add_of_added⟩

end Filtering

/-- An error about list displays. -/
def listError : Diagnostic :=
  ⟨.e1001, .error, "list displays are not allowed", [], []⟩

/-- A queue for two errors with an error about lambda expressions, a warning, and
an error on the next line that begins in the same way. -/
def filteredQueue : Queue .firstLetter :=
  let queue := ((ofConfig ⟨2, true⟩).add lambdaError ⟨1, 5⟩).2
  let queue := (queue.add { syntaxError with severity := .warning } ⟨1, 7⟩).2
  -- A digest that keeps the first letter takes this one for a repetition.
  let queue := (queue.add listError ⟨1, 9⟩).2
  (queue.add lambdaError ⟨2, 1⟩).2

/-- The limit is reached, and a further diagnostic leaves the queue as it was. -/
theorem filters_filteredQueue :
    filteredQueue.HasHistory False ∧ filteredQueue.entries.length = 3 ∧
      filteredQueue.errorCount ≤ 2 ∧
      KeepsApart filteredQueue.entries Diagnostic.isOtherError otherKey ∧
      (filteredQueue.add syntaxError ⟨3, 1⟩).2 = filteredQueue := by
  have hhistory : filteredQueue.HasHistory False :=
    .add (.add (.add (.add (.fresh _) _ _) _ _) _ _) _ _
  have hfilters := hhistory.filters
  exact ⟨hhistory, by decide, hfilters.1 (by decide), (hfilters.2.1 (by decide)).2,
    (hfilters.2.2 syntaxError ⟨3, 1⟩).1 (by decide)⟩

end Queue

end ScriptLowering
