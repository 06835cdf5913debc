import ScriptLowering.Report.Queue

/-!
# Histories of a queue

A queue remembers how many errors it holds and which errors of either class it
saw last, and decides by this alone what it leaves out.  Along every history of
a queue the memory agrees with the entries.  A queue that leaves an error out
therefore holds one already, so that an error is never lost without a trace.

A digest takes some messages for repetitions that are none.  All that follows
holds for every digest.

Main results:

- Definition `Queue.HasHistory`: a queue has a history that began with a fresh
  one.
- Theorem `Queue.HasHistory.memory_agrees`: what a queue remembers agrees with
  what it holds.
- Theorem `Queue.exists_taken`: adding diagnostics is adding those of them that
  are taken, and all of these are taken again.
- Theorem `Queue.Coherent.hasErrors?_addAll`: a queue holds an error after one
  was added, even when it was left out.
-/

namespace ScriptLowering

/-- An error of a text or tree that does not match the grammar. -/
def Diagnostic.isSyntaxError (diagnostic : Diagnostic) : Bool :=
  diagnostic.isError && diagnostic.code.isSyntaxError

/-- Any other error. -/
def Diagnostic.isOtherError (diagnostic : Diagnostic) : Bool :=
  diagnostic.isError && !diagnostic.code.isSyntaxError

/-- The digest that keeps the first letter only. -/
abbrev Digest.firstLetter : Digest :=
  ⟨Option Char, inferInstance, List.head?⟩

namespace Queue

variable {digest : Digest}

/-! ## Histories -/

/-- A queue has a history: it was fresh once, and then diagnostics were added,
other queues with a history merged in if `merging` holds, and the queue flushed,
in any order.  A report of an error adds its diagnostic, at the position that is
given or at the one that a line table gives it, and a copy of a queue has the
history of the queue. -/
inductive HasHistory (merging : Prop) : Queue digest → Prop
  | fresh (config : QueueConfig) : HasHistory merging (.ofConfig config)
  | add {queue : Queue digest} (h : HasHistory merging queue) (diagnostic : Diagnostic)
      (position : Position) : HasHistory merging (queue.add diagnostic position).2
  | merge {queue other : Queue digest} (hmerging : merging) (h : HasHistory merging queue)
      (hother : HasHistory merging other) : HasHistory merging (queue.merge other).2
  | flush {queue : Queue digest} (h : HasHistory merging queue) :
      HasHistory merging queue.flush.2

/-- A queue has a history with or without merges. -/
abbrev Reachable (queue : Queue digest) : Prop :=
  queue.HasHistory True

namespace HasHistory

variable {merging : Prop} {queue : Queue digest}

/-- A report at a position goes on with a history. -/
theorem emit (h : queue.HasHistory merging) (diagnostic : Diagnostic) (position : Position) :
    (queue.emit diagnostic position).2.HasHistory merging :=
  h.add diagnostic position

/-- A report at the position of a line table goes on with a history. -/
theorem emitWithTable (h : queue.HasHistory merging) (diagnostic : Diagnostic)
    (table : LineTable) (source : String) :
    (queue.emitWithTable diagnostic table source).2.HasHistory merging :=
  h.add diagnostic (positionOf table source diagnostic)

/-- A report at the position in a text goes on with a history. -/
theorem emitWithSource (h : queue.HasHistory merging) (diagnostic : Diagnostic)
    (source : String) : (queue.emitWithSource diagnostic source).2.HasHistory merging :=
  h.emitWithTable diagnostic (.ofSource source) source

end HasHistory

/-! ## Memory -/

/-- The last entry whose diagnostic is of a class. -/
def lastOf? (entries : List QueueEntry) (isOfClass : Diagnostic → Bool) : Option QueueEntry :=
  (entries.filter fun entry => isOfClass entry.diagnostic).getLast?

/-- An entry at the end is the last one of its class. -/
theorem lastOf?_concat (entries : List QueueEntry) (isOfClass : Diagnostic → Bool)
    (entry : QueueEntry) :
    lastOf? (entries ++ [entry]) isOfClass =
      if isOfClass entry.diagnostic then some entry else lastOf? entries isOfClass := by
  unfold lastOf?
  rw [List.filter_append]
  by_cases hclass : isOfClass entry.diagnostic
  · simp [hclass]
  · simp [hclass]

/-- The last entry of a class is an entry of the class. -/
theorem mem_of_lastOf? {entries : List QueueEntry} {isOfClass : Diagnostic → Bool}
    {entry : QueueEntry} (h : lastOf? entries isOfClass = some entry) :
    entry ∈ entries ∧ isOfClass entry.diagnostic := by
  have hmem := List.mem_of_getLast? h
  exact List.mem_filter.mp hmem

/-- A syntax error that is taken is the last one from then on. -/
theorem lastSyntaxLine_push (queue : Queue digest) (diagnostic : Diagnostic) (position : Position) :
    (queue.push diagnostic position).lastSyntaxLine =
      if diagnostic.isSyntaxError then some position.line else queue.lastSyntaxLine := by
  unfold push Diagnostic.isSyntaxError
  cases diagnostic.isError <;> cases diagnostic.code.isSyntaxError <;> rfl

/-- Any other error that is taken is the last one from then on. -/
theorem lastError_push (queue : Queue digest) (diagnostic : Diagnostic) (position : Position) :
    (queue.push diagnostic position).lastError =
      if diagnostic.isOtherError then
        some (position.line, digest.code (beginning diagnostic.message))
      else queue.lastError := by
  unfold push Diagnostic.isOtherError
  cases diagnostic.isError <;> cases diagnostic.code.isSyntaxError <;> rfl

/-- What a queue remembers agrees with what it holds: the number of its errors,
the line of the last syntax error, and the line and the digest of the last other
error. -/
structure Coherent (queue : Queue digest) : Prop where
  errorCount_eq : queue.errorCount = queue.entries.countP fun entry => entry.diagnostic.isError
  syntaxLine : ∀ line, queue.lastSyntaxLine = some line →
    ∃ entry, lastOf? queue.entries Diagnostic.isSyntaxError = some entry ∧
      entry.position.line = line
  otherError : ∀ line code, queue.lastError = some (line, code) →
    ∃ entry, lastOf? queue.entries Diagnostic.isOtherError = some entry ∧
      entry.position.line = line ∧ digest.code (beginning entry.diagnostic.message) = code

/-- A fresh queue remembers nothing and holds nothing. -/
theorem coherent_ofConfig (config : QueueConfig) : (ofConfig config : Queue digest).Coherent :=
  ⟨rfl, nofun, nofun⟩

namespace Coherent

variable {queue other : Queue digest}

/-- A diagnostic at the end becomes the last one of its class. -/
theorem push (h : queue.Coherent) (diagnostic : Diagnostic) (position : Position) :
    (queue.push diagnostic position).Coherent := by
  constructor
  · rw [errorCount_push, entries_push, List.countP_append, h.errorCount_eq]
    simp
  · intro line hline
    rw [lastSyntaxLine_push] at hline
    rw [entries_push, lastOf?_concat]
    by_cases hclass : diagnostic.isSyntaxError
    · rw [if_pos hclass]
      rw [if_pos hclass] at hline
      exact ⟨_, rfl, Option.some.inj hline⟩
    · rw [if_neg hclass]
      rw [if_neg hclass] at hline
      exact h.syntaxLine line hline
  · intro line code hlast
    rw [lastError_push] at hlast
    rw [entries_push, lastOf?_concat]
    by_cases hclass : diagnostic.isOtherError
    · rw [if_pos hclass]
      rw [if_pos hclass] at hlast
      obtain ⟨hline, hcode⟩ := Prod.mk.inj (Option.some.inj hlast)
      exact ⟨_, rfl, hline, hcode⟩
    · rw [if_neg hclass]
      rw [if_neg hclass] at hlast
      exact h.otherError line code hlast

/-- A diagnostic that is left out changes nothing. -/
theorem add (h : queue.Coherent) (diagnostic : Diagnostic) (position : Position) :
    (queue.add diagnostic position).2.Coherent := by
  unfold Queue.add
  split
  · exact h
  · exact h.push diagnostic position

/-- Merging adds the numbers of errors up and forgets the last ones. -/
theorem merge (h : queue.Coherent) (hother : other.Coherent) :
    (queue.merge other).2.Coherent := by
  refine ⟨?_, nofun, nofun⟩
  rw [errorCount_merge, entries_merge, List.countP_append, h.errorCount_eq, hother.errorCount_eq]

end Coherent

/-- Along its whole history, what a queue remembers agrees with what it holds. -/
theorem HasHistory.coherent {merging : Prop} {queue : Queue digest}
    (h : queue.HasHistory merging) : queue.Coherent := by
  induction h with
  | fresh config => exact coherent_ofConfig config
  | add _ diagnostic position ih => exact ih.add diagnostic position
  | merge _ _ _ ih ihother => exact ih.merge ihother
  | flush => exact coherent_ofConfig _

/-- There is a sign of errors exactly when some were counted. -/
theorem isSome_hasErrors?_iff {queue : Queue digest} :
    queue.hasErrors?.isSome ↔ 0 < queue.errorCount := by
  unfold hasErrors? ErrorGuarantee.ofErrorCount?
  by_cases hcount : 0 < queue.errorCount
  · simp [hcount]
  · simp [hcount]

/-- There is a sign of errors exactly when the queue holds one. -/
theorem Coherent.isSome_hasErrors?_iff {queue : Queue digest} (h : queue.Coherent) :
    queue.hasErrors?.isSome ↔ ∃ entry ∈ queue.entries, entry.diagnostic.isError := by
  rw [Queue.isSome_hasErrors?_iff, h.errorCount_eq, List.countP_pos_iff]

/-- Along its whole history, what a queue remembers agrees with what it holds.
The number of errors is that of its entries, and there is a sign of errors
exactly when it holds one.  The remembered line is that of the last syntax error,
and the other remembered line and digest are those of the last other error. -/
theorem HasHistory.memory_agrees {merging : Prop} {queue : Queue digest}
    (h : queue.HasHistory merging) :
    queue.errorCount = queue.entries.countP (fun entry => entry.diagnostic.isError) ∧
      (queue.hasErrors?.isSome ↔ ∃ entry ∈ queue.entries, entry.diagnostic.isError) ∧
      (∀ line, queue.lastSyntaxLine = some line →
        ∃ entry, lastOf? queue.entries Diagnostic.isSyntaxError = some entry ∧
          entry.position.line = line) ∧
      ∀ line code, queue.lastError = some (line, code) →
        ∃ entry, lastOf? queue.entries Diagnostic.isOtherError = some entry ∧
          entry.position.line = line ∧
          digest.code (beginning entry.diagnostic.message) = code := by
  have hcoherent := h.coherent
  exact ⟨hcoherent.errorCount_eq, hcoherent.isSome_hasErrors?_iff, hcoherent.syntaxLine,
    hcoherent.otherError⟩

/-- An error about lambda expressions. -/
def lambdaError : Diagnostic :=
  ⟨.e1001, .error, "lambda expressions are not allowed", [], []⟩

/-- A syntax error. -/
def syntaxError : Diagnostic :=
  ⟨.e0001, .error, "invalid syntax", [], []⟩

/-- A queue that took a syntax error over from another queue, and an error about
lambda expressions after that. -/
def mergedQueue : Queue .firstLetter :=
  let other := ((ofConfig .unlimited).add syntaxError ⟨3, 1⟩).2
  (((ofConfig .default).merge other).2.add lambdaError ⟨1, 5⟩).2

/-- The merge has forgotten the syntax error but counts it. -/
theorem memory_agrees_mergedQueue :
    mergedQueue.HasHistory True ∧ mergedQueue.errorCount = 2 ∧
      mergedQueue.lastSyntaxLine = none ∧
      mergedQueue.lastError = some (1, some 'l') ∧
      (∃ entry ∈ mergedQueue.entries, entry.diagnostic.isError) ∧
      ∃ entry, lastOf? mergedQueue.entries Diagnostic.isOtherError = some entry ∧
        entry.position.line = 1 ∧ (beginning entry.diagnostic.message).head? = some 'l' := by
  have hhistory : mergedQueue.HasHistory True :=
    .add (.merge trivial (.fresh .default) (.add (.fresh .unlimited) _ _)) _ _
  have hagrees := hhistory.memory_agrees
  exact ⟨hhistory, by decide, by decide, by decide, hagrees.2.1.mp (by decide),
    hagrees.2.2.2 1 (some 'l') (by decide)⟩

/-! ## Errors that are left out -/

/-- A queue that holds an error has counted it. -/
theorem Coherent.errorCount_pos {queue : Queue digest} {entry : QueueEntry} (h : queue.Coherent)
    (hmem : entry ∈ queue.entries) (herror : entry.diagnostic.isError) :
    0 < queue.errorCount := by
  rw [h.errorCount_eq]
  exact List.countP_pos_iff.mpr ⟨entry, hmem, herror⟩

/-- A queue that leaves an error out holds one already: as many as its limit
allows, or the last one of the same class. -/
theorem Coherent.errorCount_pos_of_leavesOut {queue : Queue digest} {diagnostic : Diagnostic}
    {line : UInt32} (h : queue.Coherent) (herror : diagnostic.isError)
    (hout : queue.leavesOut diagnostic line) : 0 < queue.errorCount := by
  unfold leavesOut at hout
  rw [Bool.or_eq_true, Bool.and_eq_true] at hout
  rcases hout with hlimit | ⟨-, hrepetition⟩
  · unfold limitReached at hlimit
    rw [Bool.and_eq_true, decide_eq_true_iff, decide_eq_true_iff] at hlimit
    omega
  · unfold isRepetition at hrepetition
    rw [herror, Bool.true_and] at hrepetition
    split at hrepetition
    · obtain ⟨entry, hlast, -⟩ := h.syntaxLine line (beq_iff_eq.mp hrepetition)
      obtain ⟨hmem, hclass⟩ := mem_of_lastOf? hlast
      exact h.errorCount_pos hmem (Bool.and_eq_true_iff.mp hclass).1
    · obtain ⟨entry, hlast, -⟩ := h.otherError line _ (beq_iff_eq.mp hrepetition)
      obtain ⟨hmem, hclass⟩ := mem_of_lastOf? hlast
      exact h.errorCount_pos hmem (Bool.and_eq_true_iff.mp hclass).1

/-- After an error was added, a queue has counted one, even when it was left
out. -/
theorem Coherent.errorCount_pos_add {queue : Queue digest} {diagnostic : Diagnostic}
    (h : queue.Coherent) (herror : diagnostic.isError) (position : Position) :
    0 < (queue.add diagnostic position).2.errorCount := by
  unfold Queue.add
  split
  · rename_i hout
    exact h.errorCount_pos_of_leavesOut herror hout
  · rw [errorCount_push, if_pos herror]
    omega

/-! ## Adding several diagnostics -/

/-- Adds diagnostics at their positions, one after the other. -/
def addAll (queue : Queue digest) (entries : List QueueEntry) : Queue digest :=
  entries.foldl (fun queue entry => (queue.add entry.diagnostic entry.position).2) queue

@[simp]
theorem addAll_nil (queue : Queue digest) : queue.addAll [] = queue :=
  rfl

@[simp]
theorem addAll_cons (queue : Queue digest) (entry : QueueEntry) (entries : List QueueEntry) :
    queue.addAll (entry :: entries) =
      (queue.add entry.diagnostic entry.position).2.addAll entries :=
  rfl

/-- Adding a diagnostic leaves the configuration as it was. -/
@[simp]
theorem config_add (queue : Queue digest) (diagnostic : Diagnostic) (position : Position) :
    (queue.add diagnostic position).2.config = queue.config := by
  unfold Queue.add
  split <;> simp

/-- An unlimited queue leaves nothing out. -/
theorem entries_add_of_unlimited {queue : Queue digest} (h : queue.config = .unlimited)
    (diagnostic : Diagnostic) (position : Position) :
    (queue.add diagnostic position).2.entries = queue.entries ++ [⟨diagnostic, position⟩] := by
  have hkeeps : queue.leavesOut diagnostic position.line = false := by
    simp [leavesOut, limitReached, h, QueueConfig.unlimited]
  rw [add_of_not_leavesOut hkeeps, entries_push]

/-- Adding a diagnostic never takes an error away. -/
theorem errorCount_le_add (queue : Queue digest) (diagnostic : Diagnostic) (position : Position) :
    queue.errorCount ≤ (queue.add diagnostic position).2.errorCount := by
  unfold Queue.add
  split
  · exact Nat.le_refl _
  · rw [errorCount_push]
    omega

variable {queue : Queue digest} {entries : List QueueEntry}

/-- Adding diagnostics leaves the configuration as it was. -/
theorem config_addAll (queue : Queue digest) (entries : List QueueEntry) :
    (queue.addAll entries).config = queue.config := by
  induction entries generalizing queue with
  | nil => rfl
  | cons entry entries ih => rw [addAll_cons, ih, config_add]

/-- A diagnostic that is not added leaves the queue as it was. -/
theorem snd_add_of_not_added {diagnostic : Diagnostic} {position : Position}
    (h : (queue.add diagnostic position).1 = false) :
    (queue.add diagnostic position).2 = queue := by
  by_cases hout : queue.leavesOut diagnostic position.line
  · rw [add_of_leavesOut hout]
  · rw [add_of_not_leavesOut ((Bool.not_eq_true _).mp hout)] at h
    contradiction

/-- A diagnostic that is added stands at its position at the end. -/
theorem entries_add_of_added {diagnostic : Diagnostic} {position : Position}
    (h : (queue.add diagnostic position).1 = true) :
    (queue.add diagnostic position).2.entries = queue.entries ++ [⟨diagnostic, position⟩] := by
  by_cases hout : queue.leavesOut diagnostic position.line
  · rw [add_of_leavesOut hout] at h
    contradiction
  · rw [add_of_not_leavesOut ((Bool.not_eq_true _).mp hout), entries_push]

/-- A queue takes diagnostics, one after the other, without leaving one out. -/
def TakesAll (queue : Queue digest) : List QueueEntry → Prop
  | [] => True
  | entry :: entries =>
    (queue.add entry.diagnostic entry.position).1 = true ∧
      (queue.add entry.diagnostic entry.position).2.TakesAll entries

/-- Adding diagnostics is adding those of them that are taken.  All of these are taken
again, since what was left out between them has left the queue as it was. -/
theorem exists_taken (queue : Queue digest) (entries : List QueueEntry) :
    ∃ taken, taken.Sublist entries ∧
      (queue.addAll entries).entries = queue.entries ++ taken ∧
      queue.TakesAll taken ∧ queue.addAll taken = queue.addAll entries := by
  induction entries generalizing queue with
  | nil => exact ⟨[], .slnil, (List.append_nil _).symm, trivial, rfl⟩
  | cons entry entries ih =>
      obtain ⟨taken, hsublist, hentries, htakes, hsame⟩ :=
        ih (queue.add entry.diagnostic entry.position).2
      rw [addAll_cons, hentries]
      cases hadded : (queue.add entry.diagnostic entry.position).1 with
      | false =>
          rw [snd_add_of_not_added hadded] at htakes hsame ⊢
          exact ⟨taken, hsublist.cons entry, rfl, htakes, hsame⟩
      | true =>
          refine ⟨entry :: taken, hsublist.cons_cons entry, ?_, ⟨hadded, htakes⟩, hsame⟩
          rw [entries_add_of_added hadded, List.append_assoc]
          rfl

/-- An unlimited queue takes all diagnostics. -/
theorem entries_addAll_of_unlimited (h : queue.config = .unlimited) (entries : List QueueEntry) :
    (queue.addAll entries).entries = queue.entries ++ entries := by
  induction entries generalizing queue with
  | nil => simp
  | cons entry entries ih =>
      rw [addAll_cons, ih (by rw [config_add, h]), entries_add_of_unlimited h, List.append_assoc]
      rfl

/-- Adding diagnostics never takes an error away. -/
theorem errorCount_le_addAll (queue : Queue digest) (entries : List QueueEntry) :
    queue.errorCount ≤ (queue.addAll entries).errorCount := by
  induction entries generalizing queue with
  | nil => exact Nat.le_refl _
  | cons entry entries ih => exact Nat.le_trans (errorCount_le_add queue _ _) (ih _)

/-- After errors were added, a queue holds one, even when all of them were left
out. -/
theorem Coherent.hasErrors?_addAll (h : queue.Coherent) (hne : entries ≠ [])
    (herrors : ∀ entry ∈ entries, entry.diagnostic.isError) :
    (queue.addAll entries).hasErrors?.isSome := by
  rw [Queue.isSome_hasErrors?_iff]
  cases entries with
  | nil => contradiction
  | cons entry entries =>
      have hfirst := h.errorCount_pos_add (herrors entry (by simp)) entry.position
      exact Nat.lt_of_lt_of_le hfirst (errorCount_le_addAll _ entries)

end Queue

end ScriptLowering
