import ScriptLowering.Frontend
import ScriptLowering.Proofs.QueueHistory

/-!
# The contract of the driver

Reading a text gives a script or reports errors, and never both.  What is read
does not depend on the queue, and the queue changes only when nothing is read:
diagnostics of the errors are then appended to it, in the order of the errors.
The queue may leave some of them out, but it holds an error afterwards in any
case.

Main results:

- Theorem `reported_addAll`: adding the diagnostics of errors to a queue reports
  them.
- Theorem `meetsContract_run`: parsing and lowering a text meets the contract,
  whatever the entry point is.
- Theorem `driver_meetsContract`: the three ways to read a text meet the
  contract, whatever digest the queue keeps.
-/

namespace ScriptLowering

variable {digest : Digest}

/-! ## Errors as entries of a queue -/

namespace LoweringError

/-- The code that an error is reported with. -/
def code : LoweringError → Code
  | .unsupported _ => .e1001
  | .parse _ => .e0001

/-- The code of an error is that of its diagnostic. -/
@[simp]
theorem code_toDiagnostic (error : LoweringError) : error.toDiagnostic.code = error.code := by
  cases error <;> rfl

/-- What an error becomes in a queue: its diagnostic, at the position where its
span starts. -/
def entryIn (source : String) (error : LoweringError) : QueueEntry :=
  ⟨error.toDiagnostic, positionIn source error.span.start⟩

end LoweringError

/-- The position of an error is where its span starts. -/
theorem positionOf_toDiagnostic (source : String) (error : LoweringError) :
    Queue.positionOf (.ofSource source) source error.toDiagnostic =
      positionIn source error.span.start := by
  unfold Queue.positionOf
  rw [LoweringError.primarySpan?_toDiagnostic]
  rfl

/-- Reporting an error adds its diagnostic. -/
theorem report_snd (error : LoweringError) (source : String) (queue : Queue digest) :
    (report error source queue).2 = queue.addAll [error.entryIn source] := by
  unfold report Queue.emitWithSource Queue.emitWithTable
  rw [positionOf_toDiagnostic]
  rfl

/-- Reporting the failures of a parser adds their diagnostics in order. -/
theorem reportFailures_eq (failures : List ParseFailure) (source : String) (queue : Queue digest) :
    reportFailures failures source queue = queue.addAll
      (((failuresToReport failures).map LoweringError.parse).map (·.entryIn source)) := by
  unfold reportFailures Queue.addAll Queue.emitWithTable
  rw [List.map_map, List.foldl_map]
  simp only [positionOf_toDiagnostic]
  rfl

/-- A parser that fails is reported to have failed at least once. -/
theorem length_failuresToReport (failures : List ParseFailure) :
    (failuresToReport failures).length = max 1 failures.length := by
  unfold failuresToReport
  cases failures with
  | nil => rfl
  | cons failure failures =>
      rw [if_neg (by simp), List.length_cons]
      omega

/-! ## Reported errors -/

/-- Errors in a text have been reported to a queue.  The entries before stay
where they are, and no more than `count` entries follow: errors with the codes
and the spans of the ones that are reported, in their order.  An unlimited queue
takes all of them, and any queue with a history holds an error afterwards. -/
structure Reported (source : String) (errors : List LoweringError) (count : Nat)
    (queue after : Queue digest) : Prop where
  config_eq : after.config = queue.config
  appended : ∃ appended : List QueueEntry, after.entries = queue.entries ++ appended ∧
    appended.length ≤ count ∧ appended.Sublist (errors.map (·.entryIn source)) ∧
    (∀ entry ∈ appended, ∃ error ∈ errors, entry.diagnostic.severity = .error ∧
      entry.diagnostic.code = error.code ∧ entry.diagnostic.primarySpan? = some error.span) ∧
    (queue.config = .unlimited → appended.length = count ∧
      appended.map QueueEntry.diagnostic = errors.map LoweringError.toDiagnostic)
  hasErrors : queue.Reachable → after.hasErrors?.isSome

/-- Adding the diagnostics of errors to a queue reports them. -/
theorem reported_addAll {source : String} {errors : List LoweringError} {count : Nat}
    (hcount : errors.length = count) (hpos : 0 < count) (queue : Queue digest) :
    Reported source errors count queue (queue.addAll (errors.map (·.entryIn source))) := by
  obtain ⟨appended, hsublist, hentries, -, -⟩ :=
    queue.exists_taken (errors.map (·.entryIn source))
  have hlength := hsublist.length_le
  rw [List.length_map, hcount] at hlength
  refine ⟨queue.config_addAll _, ⟨appended, hentries, hlength, hsublist, ?_, ?_⟩, ?_⟩
  · intro entry hentry
    obtain ⟨error, herror, rfl⟩ := List.mem_map.mp (hsublist.subset hentry)
    refine ⟨error, herror, ?_, error.code_toDiagnostic, error.primarySpan?_toDiagnostic⟩
    exact beq_iff_eq.mp error.isError_toDiagnostic
  · intro hunlimited
    have hall := Queue.entries_addAll_of_unlimited hunlimited (errors.map (·.entryIn source))
    rw [hentries, List.append_cancel_left_eq] at hall
    rw [hall, List.map_map, List.length_map]
    exact ⟨hcount, rfl⟩
  · intro hreachable
    apply hreachable.coherent.hasErrors?_addAll
    · intro hnil
      rw [List.map_eq_nil_iff] at hnil
      rw [hnil] at hcount
      simp at hcount
      omega
    · intro entry hentry
      obtain ⟨error, -, rfl⟩ := List.mem_map.mp hentry
      exact error.isError_toDiagnostic

/-! ## The contract -/

/-- The contract of a way to read texts: what is read depends on the parser and
the lowering only, a text that is read leaves the queue as it was, and any other
text has its errors reported. -/
structure MeetsContract {α : Type} (digest : Digest) (entry : EntryPoint)
    (lower : Tree → Lowered α)
    (read : String → GrammarParser → Queue digest → Option α × Queue digest) : Prop where
  value_eq : ∀ source parser queue queue',
    (read source parser queue).1 = (read source parser queue').1
  eq_some_iff : ∀ source parser queue result, (read source parser queue).1 = some result ↔
    ∃ root, parser source entry = .ok root ∧ lower root = .ok result
  unchanged : ∀ source parser queue, (read source parser queue).1.isSome →
    (read source parser queue).2 = queue
  parser_failures : ∀ source parser queue failures, parser source entry = .error failures →
    Reported source ((failuresToReport failures).map .parse) (max 1 failures.length) queue
      (read source parser queue).2
  lowering_error : ∀ source parser queue root error, parser source entry = .ok root →
    lower root = .error error → Reported source [error] 1 queue (read source parser queue).2

section Run

variable {α : Type} {entry : EntryPoint} {lower : Tree → Lowered α} {source : String}
  {parser : GrammarParser} {root : Tree}

/-- When the parser fails, its failures are reported and nothing is lowered. -/
theorem run_of_parser_error {failures : List ParseFailure}
    (h : parser source entry = .error failures) (queue : Queue digest) :
    run entry lower source parser queue = (none, reportFailures failures source queue) := by
  rw [run, h]

/-- When lowering fails, its error is reported. -/
theorem run_of_lowering_error {error : LoweringError} (h : parser source entry = .ok root)
    (herror : lower root = .error error) (queue : Queue digest) :
    run entry lower source parser queue = (none, (report error source queue).2) := by
  simp only [run, h, herror]

/-- When lowering succeeds, its result is given and the queue stays as it was. -/
theorem run_of_ok {result : α} (h : parser source entry = .ok root)
    (hresult : lower root = .ok result) (queue : Queue digest) :
    run entry lower source parser queue = (some result, queue) := by
  simp only [run, h, hresult]

end Run

/-- Parsing and lowering a text meets the contract. -/
theorem meetsContract_run {α : Type} (digest : Digest) (entry : EntryPoint)
    (lower : Tree → Lowered α) : MeetsContract digest entry lower (run entry lower) := by
  have hread : ∀ source parser (queue : Queue digest) result,
      (run entry lower source parser queue).1 = some result ↔
        ∃ root, parser source entry = .ok root ∧ lower root = .ok result := by
    intro source parser queue result
    constructor
    · intro h
      cases hparse : parser source entry with
      | error failures =>
          rw [run_of_parser_error hparse] at h
          contradiction
      | ok root =>
          cases hlower : lower root with
          | error error =>
              rw [run_of_lowering_error hparse hlower] at h
              contradiction
          | ok own =>
              rw [run_of_ok hparse hlower] at h
              exact ⟨root, rfl, hlower.trans (congrArg Except.ok (Option.some.inj h))⟩
    · rintro ⟨root, hparse, hlower⟩
      rw [run_of_ok hparse hlower]
  constructor
  · intro source parser queue queue'
    apply Option.ext
    intro result
    rw [hread, hread]
  · exact hread
  · intro source parser queue hsome
    obtain ⟨result, hresult⟩ := Option.isSome_iff_exists.mp hsome
    obtain ⟨root, hparse, hlower⟩ := (hread source parser queue result).mp hresult
    rw [run_of_ok hparse hlower]
  · intro source parser queue failures hparse
    have hcount := length_failuresToReport failures
    rw [run_of_parser_error hparse, reportFailures_eq]
    apply reported_addAll
    · rw [List.length_map, hcount]
    · omega
  · intro source parser queue root error hparse herror
    have hcount : [error].length = 1 := rfl
    rw [run_of_lowering_error hparse herror, report_snd]
    exact reported_addAll hcount Nat.one_pos queue

/-- The three ways to read a text meet the contract: what they read does not
depend on the queue, they leave the queue as it was when they read something,
and otherwise they report the failures of the parser or the error of the
lowering. -/
theorem driver_meetsContract (digest : Digest) :
    MeetsContract digest .fileInput lowerFileInput parseProgram ∧
      MeetsContract digest .singleInput lowerSingleInput parseInteractive ∧
      MeetsContract digest .evalInput lowerEvalInput parseExpression :=
  ⟨meetsContract_run digest _ _, meetsContract_run digest _ _, meetsContract_run digest _ _⟩

/-- A parser that always fails in the same way. -/
def failingParser : GrammarParser :=
  fun _ _ => .error [.reported .unplaced "invalid syntax"]

/-- A failure that repeats the last one is left out, and yet the queue holds an
error. -/
theorem hasErrors?_repeatedFailure :
    let queue : Queue .firstLetter := (parseProgram "x" failingParser (.ofConfig .default)).2
    (parseProgram "x" failingParser queue).2 = queue ∧
      (parseProgram "x" failingParser queue).2.hasErrors?.isSome := by
  have hreachable :
      (parseProgram "x" failingParser (.ofConfig .default : Queue .firstLetter)).2.Reachable :=
    (Queue.HasHistory.fresh .default).emitWithTable _ _ _
  have hsecond := (driver_meetsContract .firstLetter).1.parser_failures "x" failingParser
    (parseProgram "x" failingParser (.ofConfig .default)).2 _ rfl
  exact ⟨by decide, hsecond.hasErrors hreachable⟩

end ScriptLowering
