import Mathlib.Data.List.Induction
import ScriptLowering.Proofs.DriverContract

/-!
# Two texts and one queue

A queue that leaves out repetitions remembers the last error of either class, and
keeps this memory from one text to the next.  When a text cannot be read after
another one, its errors are compared with the last error of the other text, by
their lines and messages only.  An error that looks like a repetition is left out
although it stands in another text.

Main results:

- Definition `Reading`: one of the three ways to read a text.
- Theorem `Queue.size_lt_addAll_iff`: a queue grows when diagnostics are added
  unless it leaves out all of them.
- Theorem `Queue.memoryOf_addAll`: a queue remembers the last error that was added,
  even when it was left out.
- Theorem `Reading.size_eq_unbalancedTexts`: a text cannot be read, and the queue
  does not tell why.
- Theorem `Reading.size_lt_after_iff`: when a queue takes an error of a second text.
-/

namespace ScriptLowering

variable {digest : Digest}

/-! ## What repetitions share -/

namespace QueueEntry

/-- What an error shares with its repetitions: the line, and the digest of how its
message begins unless it is a syntax error. -/
def mark (digest : Digest) (entry : QueueEntry) : UInt32 × Option digest.Code :=
  (entry.position.line,
    if entry.diagnostic.code.isSyntaxError then none
    else some (digest.code (Queue.beginning entry.diagnostic.message)))

/-- An error repeats another one as far as the digest tells: both are of one class and
share what repetitions share. -/
def Repeats (digest : Digest) (entry last : QueueEntry) : Prop :=
  entry.diagnostic.code.isSyntaxError = last.diagnostic.code.isSyntaxError ∧
    entry.mark digest = last.mark digest

instance (digest : Digest) (entry last : QueueEntry) : Decidable (entry.Repeats digest last) :=
  inferInstanceAs (Decidable (_ ∧ _))

end QueueEntry

namespace Queue

/-- What a queue remembers of the last error of a class, the syntax errors or the
other ones. -/
def memoryOf (queue : Queue digest) (isSyntax : Bool) : Option (UInt32 × Option digest.Code) :=
  if isSyntax then queue.lastSyntaxLine.map fun line => (line, none)
  else queue.lastError.map fun last => (last.1, some last.2)

/-- A fresh queue remembers nothing. -/
theorem memoryOf_ofConfig (config : QueueConfig) (isSyntax : Bool) :
    (ofConfig config : Queue digest).memoryOf isSyntax = none := by
  cases isSyntax <;> rfl

section Memory

variable {queue : Queue digest} {entry : QueueEntry}

/-- An error is a repetition when the queue remembers what it shares with its
repetitions. -/
theorem isRepetition_iff (herror : entry.diagnostic.isError) :
    queue.isRepetition entry.diagnostic entry.position.line ↔
      queue.memoryOf entry.diagnostic.code.isSyntaxError = some (entry.mark digest) := by
  unfold isRepetition memoryOf QueueEntry.mark
  cases hclass : entry.diagnostic.code.isSyntaxError with
  | true => simp [herror]
  | false => simp [herror, Prod.ext_iff]

/-- An error that is taken is remembered. -/
theorem memoryOf_push (herror : entry.diagnostic.isError) (isSyntax : Bool) :
    (queue.push entry.diagnostic entry.position).memoryOf isSyntax =
      if entry.diagnostic.code.isSyntaxError = isSyntax then some (entry.mark digest)
      else queue.memoryOf isSyntax := by
  unfold memoryOf QueueEntry.mark
  rw [lastSyntaxLine_push, lastError_push]
  unfold Diagnostic.isSyntaxError Diagnostic.isOtherError
  rw [herror]
  cases entry.diagnostic.code.isSyntaxError <;> cases isSyntax <;> rfl

/-- A queue below its limit leaves out the repetitions, if any. -/
theorem leavesOut_iff (hroom : queue.limitReached = false) (herror : entry.diagnostic.isError) :
    queue.leavesOut entry.diagnostic entry.position.line ↔
      queue.config.deduplicate ∧
        queue.memoryOf entry.diagnostic.code.isSyntaxError = some (entry.mark digest) := by
  rw [leavesOut, hroom, Bool.false_or, Bool.and_eq_true, isRepetition_iff herror]

/-- Below the limit an error is remembered, even when it is left out as a
repetition: then it is remembered already. -/
theorem memoryOf_add (hroom : queue.limitReached = false) (herror : entry.diagnostic.isError)
    (isSyntax : Bool) :
    (queue.add entry.diagnostic entry.position).2.memoryOf isSyntax =
      if entry.diagnostic.code.isSyntaxError = isSyntax then some (entry.mark digest)
      else queue.memoryOf isSyntax := by
  by_cases hout : queue.leavesOut entry.diagnostic entry.position.line
  · rw [add_of_leavesOut hout]
    split
    · rename_i hclass
      rw [← hclass]
      exact ((leavesOut_iff hroom herror).mp hout).2
    · rfl
  · rw [add_of_not_leavesOut ((Bool.not_eq_true _).mp hout), memoryOf_push herror]

end Memory

/-! ## Several errors -/

section Several

variable {queue : Queue digest} {entries : List QueueEntry}

/-- Adding diagnostics goes on behind those that were added before. -/
theorem addAll_append (queue : Queue digest) (entries others : List QueueEntry) :
    queue.addAll (entries ++ others) = (queue.addAll entries).addAll others :=
  List.foldl_append

/-- A queue that reached its limit has reached it ever after. -/
theorem limitReached_addAll (h : (queue.addAll entries).limitReached = false) :
    queue.limitReached = false := by
  have hcount := errorCount_le_addAll queue entries
  unfold limitReached at h ⊢
  rw [config_addAll] at h
  simp only [Bool.and_eq_false_iff, decide_eq_false_iff_not] at h ⊢
  omega

/-- A queue grows when diagnostics are added unless it leaves out all of them. -/
theorem size_lt_addAll_iff :
    queue.size < (queue.addAll entries).size ↔
      ∃ entry ∈ entries, queue.leavesOut entry.diagnostic entry.position.line = false := by
  induction entries with
  | nil => simp
  | cons entry entries ih =>
      rw [addAll_cons]
      by_cases hout : queue.leavesOut entry.diagnostic entry.position.line
      · -- The queue stays as it was, and the other entries meet the same queue.
        rw [add_of_leavesOut hout, ih]
        simp [hout]
      · have htaken := (Bool.not_eq_true _).mp hout
        obtain ⟨added, -, hentries, -, -⟩ :=
          exists_taken (queue.add entry.diagnostic entry.position).2 entries
        have hgrows : queue.size <
            ((queue.add entry.diagnostic entry.position).2.addAll entries).size := by
          unfold size
          rw [hentries, add_of_not_leavesOut htaken, entries_push]
          simp only [List.length_append, List.length_singleton]
          omega
        exact iff_of_true hgrows ⟨entry, List.mem_cons_self, htaken⟩

/-- Below its limit a queue remembers the last error of a class that was added, even
when it was left out. -/
theorem memoryOf_addAll (hroom : (queue.addAll entries).limitReached = false)
    (herrors : ∀ entry ∈ entries, entry.diagnostic.isError) (isSyntax : Bool) :
    (queue.addAll entries).memoryOf isSyntax =
      ((lastOf? entries fun diagnostic => diagnostic.code.isSyntaxError == isSyntax).map
        (QueueEntry.mark digest)).or (queue.memoryOf isSyntax) := by
  -- The last entry decides, so entries are taken off the end.
  induction entries using List.reverseRecOn with
  | nil => rfl
  | append_singleton entries entry ih =>
      rw [addAll_append] at hroom ⊢
      have hbefore := limitReached_addAll hroom
      have herror := herrors entry (by simp)
      rw [addAll_cons, addAll_nil, memoryOf_add hbefore herror, lastOf?_concat]
      split
      · rename_i hclass
        simp [hclass]
      · rename_i hclass
        rw [ih hbefore fun other hother => herrors other (List.mem_append_left _ hother)]
        simp [hclass]

/-- When all entries are of one class, the last one is the last of its class, and
there is none of the other class. -/
theorem lastOf?_of_oneClass {last : QueueEntry} (hlast : entries.getLast? = some last)
    (hclass : ∀ entry ∈ entries,
      entry.diagnostic.code.isSyntaxError = last.diagnostic.code.isSyntaxError)
    (isSyntax : Bool) :
    lastOf? entries (fun diagnostic => diagnostic.code.isSyntaxError == isSyntax) =
      if last.diagnostic.code.isSyntaxError = isSyntax then some last else none := by
  unfold lastOf?
  split
  · rename_i hown
    rw [List.filter_eq_self.mpr, hlast]
    intro entry hentry
    exact beq_iff_eq.mpr ((hclass entry hentry).trans hown)
  · rename_i hown
    rw [List.filter_eq_nil_iff.mpr, List.getLast?_nil]
    intro entry hentry hbeq
    exact hown ((hclass entry hentry).symm.trans (beq_iff_eq.mp hbeq))

end Several

/-- After errors of one class, a fresh queue that is still below its limit takes
further errors unless it leaves out repetitions and each of them repeats the last
one. -/
theorem size_lt_addAll_addAll_iff {config : QueueConfig} {entries others : List QueueEntry}
    {last : QueueEntry} (hlast : entries.getLast? = some last)
    (hclass : ∀ entry ∈ entries,
      entry.diagnostic.code.isSyntaxError = last.diagnostic.code.isSyntaxError)
    (herrors : ∀ entry ∈ entries, entry.diagnostic.isError)
    (hothers : ∀ entry ∈ others, entry.diagnostic.isError)
    (hroom : ((ofConfig config : Queue digest).addAll entries).limitReached = false) :
    ((ofConfig config : Queue digest).addAll entries).size <
        (((ofConfig config : Queue digest).addAll entries).addAll others).size ↔
      ∃ entry ∈ others, ¬ (config.deduplicate ∧ entry.Repeats digest last) := by
  rw [size_lt_addAll_iff]
  refine exists_congr fun entry => and_congr_right fun hentry => ?_
  -- Of the other class the queue remembers nothing, as it was fresh before these errors.
  rw [← Bool.not_eq_true, leavesOut_iff hroom (hothers entry hentry), config_addAll,
    memoryOf_addAll hroom herrors, memoryOf_ofConfig, Option.or_none,
    lastOf?_of_oneClass hlast hclass]
  refine not_congr (and_congr_right fun _ => ?_)
  unfold QueueEntry.Repeats
  split
  · rename_i hown
    rw [Option.map_some, Option.some_inj, eq_comm, iff_and_self]
    exact fun _ => hown.symm
  · rename_i hown
    exact iff_of_false nofun fun hrepeats => hown hrepeats.1.symm

end Queue

/-! ## Readings -/

/-- The errors that stop the parsing and the lowering of a text. -/
def errorsOf {α : Type} (entry : EntryPoint) (lower : Tree → Lowered α) (source : String)
    (parser : GrammarParser) : List LoweringError :=
  match parser source entry with
  | .error failures => (failuresToReport failures).map .parse
  | .ok root =>
    match lower root with
    | .error error => [error]
    | .ok _ => []

section Run

variable {α : Type} {entry : EntryPoint} {lower : Tree → Lowered α} {source : String}
  {parser : GrammarParser}

/-- Nothing is read exactly when errors stop the reading, and all of them are
reported. -/
theorem run_eq_errorsOf (queue : Queue digest) :
    (run entry lower source parser queue).1.isSome = (errorsOf entry lower source parser).isEmpty ∧
      (run entry lower source parser queue).2 =
        queue.addAll ((errorsOf entry lower source parser).map (·.entryIn source)) := by
  unfold errorsOf
  cases hparse : parser source entry with
  | error failures =>
      have hlength := length_failuresToReport failures
      have hne : ((failuresToReport failures).map LoweringError.parse).isEmpty = false := by
        rw [List.isEmpty_map, List.isEmpty_eq_false_iff, ← List.length_pos_iff, hlength]
        exact Nat.lt_of_lt_of_le Nat.one_pos (Nat.le_max_left _ _)
      rw [run_of_parser_error hparse, reportFailures_eq]
      exact ⟨hne.symm, rfl⟩
  | ok root =>
      cases hlower : lower root with
      | error error =>
          rw [run_of_lowering_error hparse hlower, report_snd]
          simp only [hlower]
          exact ⟨rfl, rfl⟩
      | ok result =>
          rw [run_of_ok hparse hlower]
          simp only [hlower]
          exact ⟨rfl, rfl⟩

/-- The errors that stop one reading are of one class. -/
theorem code_eq_of_mem_errorsOf {error other : LoweringError}
    (herror : error ∈ errorsOf entry lower source parser)
    (hother : other ∈ errorsOf entry lower source parser) : error.code = other.code := by
  unfold errorsOf at herror hother
  cases hparse : parser source entry with
  | error failures =>
      simp only [hparse] at herror hother
      obtain ⟨failure, -, rfl⟩ := List.mem_map.mp herror
      obtain ⟨failure', -, rfl⟩ := List.mem_map.mp hother
      rfl
  | ok root =>
      cases hlower : lower root with
      | error own =>
          simp only [hparse, hlower, List.mem_singleton] at herror hother
          rw [herror, hother]
      | ok result =>
          simp only [hparse, hlower, List.not_mem_nil] at herror

end Run

/-- A text that is read in one of the three ways. -/
structure Reading where
  entry : EntryPoint
  source : String
  parser : GrammarParser

namespace Reading

/-- Whether something was read, and the queue afterwards. -/
def outcome (reading : Reading) (queue : Queue digest) : Bool × Queue digest :=
  match reading.entry with
  | .fileInput => (parseProgram reading.source reading.parser queue).map Option.isSome id
  | .singleInput => (parseInteractive reading.source reading.parser queue).map Option.isSome id
  | .evalInput => (parseExpression reading.source reading.parser queue).map Option.isSome id

/-- The errors that stop the reading. -/
def errors (reading : Reading) : List LoweringError :=
  match reading.entry with
  | .fileInput => errorsOf .fileInput lowerFileInput reading.source reading.parser
  | .singleInput => errorsOf .singleInput lowerSingleInput reading.source reading.parser
  | .evalInput => errorsOf .evalInput lowerEvalInput reading.source reading.parser

/-- The errors that stop the reading, as entries of a queue. -/
def entries (reading : Reading) : List QueueEntry :=
  reading.errors.map (·.entryIn reading.source)

variable {reading : Reading}

/-- A reading succeeds exactly when no errors stop it, and adds all that do. -/
theorem outcome_eq (queue : Queue digest) :
    reading.outcome queue = (reading.entries.isEmpty, queue.addAll reading.entries) := by
  obtain ⟨entry, source, parser⟩ := reading
  unfold outcome entries errors
  rw [List.isEmpty_map]
  cases entry <;> exact Prod.ext (run_eq_errorsOf queue).1 (run_eq_errorsOf queue).2

/-- What a source is reported for are errors. -/
theorem isError_of_mem_entries {entry : QueueEntry} (h : entry ∈ reading.entries) :
    entry.diagnostic.isError := by
  obtain ⟨error, -, rfl⟩ := List.mem_map.mp h
  exact error.isError_toDiagnostic

/-- The errors that a source is reported for have one code. -/
theorem code_eq_of_mem_entries {entry other : QueueEntry} (hentry : entry ∈ reading.entries)
    (hother : other ∈ reading.entries) : entry.diagnostic.code = other.diagnostic.code := by
  obtain ⟨error, herror, rfl⟩ := List.mem_map.mp hentry
  obtain ⟨error', herror', rfl⟩ := List.mem_map.mp hother
  unfold LoweringError.entryIn
  rw [error.code_toDiagnostic, error'.code_toDiagnostic]
  obtain ⟨entry, source, parser⟩ := reading
  cases entry <;> exact code_eq_of_mem_errorsOf herror herror'

end Reading

/-! ## A second text -/

namespace Reading

/-- A parser that fails at the start of every text. -/
def failingAt (span : Span) (message : String) : GrammarParser :=
  fun _ _ => .error [.reported span message]

/-- A text with an opening bracket only. -/
def openingText : Reading :=
  ⟨.singleInput, "(", failingAt ⟨0, 1⟩ "unexpected end of input"⟩

/-- A text with a closing bracket only. -/
def closingText : Reading :=
  ⟨.singleInput, ")", failingAt ⟨0, 1⟩ "unmatched closing bracket"⟩

/-- Neither text can be read.  After the first one the queue leaves out the error of
the second, although it is below its limit. -/
theorem size_eq_unbalancedTexts :
    openingText.source ≠ closingText.source ∧
      ∃ queue : Queue .exact, openingText.outcome (.ofConfig .default) = (false, queue) ∧
        queue.limitReached = false ∧ closingText.outcome queue = (false, queue) := by
  refine ⟨by decide, _, rfl, by decide, by decide⟩

/-- After a text that cannot be read, the errors of a second text that cannot be read
are compared with the last error of the first.  A queue that is still below its limit
takes one of them exactly when it keeps repetitions or one of them does not look like
a repetition. -/
theorem size_lt_after_iff {first second : Reading} {config : QueueConfig}
    {queue after : Queue digest}
    (hfirst : first.outcome (.ofConfig config) = (false, queue))
    (hroom : queue.limitReached = false)
    (hsecond : second.outcome queue = (false, after)) :
    ∃ last, first.entries.getLast? = some last ∧
      (queue.size < after.size ↔
        config.deduplicate = false ∨ ∃ entry ∈ second.entries, ¬ entry.Repeats digest last) := by
  rw [outcome_eq] at hfirst hsecond
  obtain ⟨hempty, rfl⟩ := Prod.mk.inj hfirst
  obtain ⟨hempty', rfl⟩ := Prod.mk.inj hsecond
  obtain ⟨last, hlast⟩ := Option.isSome_iff_exists.mp
    (List.getLast?_isSome.mpr (List.isEmpty_eq_false_iff.mp hempty))
  obtain ⟨other, hother⟩ := List.exists_mem_of_ne_nil _ (List.isEmpty_eq_false_iff.mp hempty')
  refine ⟨last, hlast, ?_⟩
  rw [Queue.size_lt_addAll_addAll_iff hlast ?_ ?_ ?_ hroom]
  · constructor
    · rintro ⟨entry, hentry, hnew⟩
      rw [not_and_or, Bool.not_eq_true] at hnew
      exact hnew.imp_right fun hrepeats => ⟨entry, hentry, hrepeats⟩
    · rintro (hkeeps | ⟨entry, hentry, hrepeats⟩)
      · exact ⟨other, hother, fun hboth => by simp [hkeeps] at hboth⟩
      · exact ⟨entry, hentry, fun hboth => hrepeats hboth.2⟩
  · intro entry hentry
    rw [code_eq_of_mem_entries hentry (List.mem_of_getLast? hlast)]
  · exact fun entry => isError_of_mem_entries
  · exact fun entry => isError_of_mem_entries

/-- A text with a closing bracket on its second line. -/
def laterClosingText : Reading :=
  ⟨.fileInput, "x\n)", failingAt ⟨2, 3⟩ "unmatched closing bracket"⟩

/-- The error on the second line of the second text does not look like a repetition
of the one on the first line of the first text. -/
theorem size_lt_after_openingText :
    ∃ queue after : Queue .exact, openingText.outcome (.ofConfig .default) = (false, queue) ∧
      queue.limitReached = false ∧ laterClosingText.outcome queue = (false, after) ∧
      queue.size < after.size := by
  let fresh : Queue .exact := .ofConfig .default
  have hfirst : openingText.outcome fresh = (false, _) := rfl
  have hroom : (openingText.outcome fresh).2.limitReached = false := rfl
  have hsecond : laterClosingText.outcome (openingText.outcome fresh).2 = (false, _) := rfl
  obtain ⟨last, hlast, hgrows⟩ := size_lt_after_iff hfirst hroom hsecond
  obtain rfl := Option.some.inj hlast
  exact ⟨_, _, hfirst, hroom, hsecond,
    hgrows.mpr (Or.inr ⟨_, List.mem_cons_self, by decide⟩)⟩

end Reading
end ScriptLowering
