import ScriptLowering.Proofs.DriverContract
import ScriptLowering.Proofs.FlushOrder
import ScriptLowering.Proofs.LineLookup

/-!
# Failures in the order of the text

A parser gives its failures in any order, and a queue flushes them in the order of
lines and columns.  Offsets between characters have the order of their positions, and
an offset past the end has the position of the end.  The failures therefore come out
in the order in which they start in the text, and those that start together come out
as the parser gave them.

Main results:

- Theorem `isLe_positionIn_iff`: positions compare as offsets between characters do.
- Theorem `ParseFailure.StartsIn.exists_inside`: a failure past the end is reported at
  the end.
- Theorem `flush_addAll_failures`: failures that are reported and flushed are in the
  order of their offsets.
- Theorem `driver_reportsInOrder`: the three ways to read a text report the failures of
  the parser in the order of the text.
-/

namespace ScriptLowering

variable {digest : Digest}

/-! ## Positions and offsets -/

/-- Positions compare as offsets between characters do. -/
theorem isLe_positionIn_iff {source : String} {a b : UInt32}
    (hsize : source.utf8ByteSize < Span.maxOffset) (ha : Text.IsBoundary source a.toNat)
    (hb : Text.IsBoundary source b.toNat) :
    (positionIn source a).isLe (positionIn source b) ↔ a.toNat ≤ b.toNat := by
  rcases Nat.lt_trichotomy a.toNat b.toNat with hlt | heq | hgt
  · have hbefore := positionIn_precedes hsize ha hb (UInt32.lt_iff_toNat_lt.mpr hlt)
    refine iff_of_true (Position.isLe_iff.mpr ?_) (Nat.le_of_lt hlt)
    exact hbefore.imp_right fun h => ⟨h.1, UInt32.le_of_lt h.2⟩
  · obtain rfl := UInt32.toNat_inj.mp heq
    exact iff_of_true (Position.isLe_refl _) (Nat.le_refl _)
  · have hbefore := positionIn_precedes hsize hb ha (UInt32.lt_iff_toNat_lt.mpr hgt)
    have hle : (positionIn source b).isLe (positionIn source a) :=
      Position.isLe_iff.mpr (hbefore.imp_right fun h => ⟨h.1, UInt32.le_of_lt h.2⟩)
    refine iff_of_false (fun hback => ?_) (Nat.not_le_of_lt hgt)
    exact hbefore.ne (Position.isLe_antisymm _ _ hle hback)

namespace ParseFailure

/-- Where a failure is reported: at the start of its span, or at the end of a text that
ends before. -/
def offsetIn (source : String) (failure : ParseFailure) : Nat :=
  min failure.span.start.toNat source.utf8ByteSize

/-- A failure starts between two characters of a text, or past its end. -/
def StartsIn (source : String) (failure : ParseFailure) : Prop :=
  Text.IsBoundary source failure.span.start.toNat ∨
    source.utf8ByteSize < failure.span.start.toNat

/-- A failure is an entry of a queue at the position of its start. -/
def entryIn (source : String) (failure : ParseFailure) : QueueEntry :=
  (LoweringError.parse failure).entryIn source

/-- A failure is reported at an offset between two characters, which is the end when the
failure starts past it. -/
theorem StartsIn.exists_inside {source : String} {failure : ParseFailure}
    (h : failure.StartsIn source) (hsize : source.utf8ByteSize < Span.maxOffset) :
    ∃ inside : UInt32, inside.toNat = failure.offsetIn source ∧
      Text.IsBoundary source inside.toNat ∧
      (failure.entryIn source).position = positionIn source inside := by
  have hword : (UInt32.ofNat (failure.offsetIn source)).toNat = failure.offsetIn source := by
    have hbound : failure.span.start.toNat < UInt32.size := failure.span.start.toNat_lt
    exact UInt32.toNat_ofNat_of_lt' (Nat.lt_of_le_of_lt (Nat.min_le_left _ _) hbound)
  have hboundary : Text.IsBoundary source (failure.offsetIn source) := by
    unfold offsetIn
    rcases h with ⟨before, after, hparts, hbytes⟩ | hpast
    · have hsizes := Text.utf8ByteSize_eq hparts
      rw [Nat.min_eq_left (by omega)]
      exact ⟨before, after, hparts, hbytes⟩
    · rw [Nat.min_eq_right (Nat.le_of_lt hpast)]
      exact ⟨source.toList, [], by simp, Text.byteSize_toList source⟩
  have hinside : Text.IsBoundary source (UInt32.ofNat (failure.offsetIn source)).toNat :=
    hword.symm ▸ hboundary
  refine ⟨_, hword, hinside, ?_⟩
  obtain ⟨before, after, hparts, hbytes⟩ := hboundary
  have hsizes := Text.utf8ByteSize_eq hparts
  rw [positionIn_eq hparts (by omega) hsize]
  exact positionIn_eq hparts hbytes hsize

end ParseFailure

/-! ## Flushed failures -/

/-- Merge sort puts failures in the order of their offsets. -/
theorem isStableSort_offsetIn (source : String) (failures : List ParseFailure) :
    IsStableSort (fun a b => decide (a ≤ b)) (·.offsetIn source) failures
      (failures.mergeSort fun a b => a.offsetIn source ≤ b.offsetIn source) := by
  refine isStableSort_mergeSort (fun a b c => ?_) (fun a b => ?_) failures
  · simp only [decide_eq_true_iff]
    exact Nat.le_trans
  · simp only [Bool.or_eq_true, decide_eq_true_iff]
    exact Nat.le_total a b

/-- Failures that are reported to an empty unlimited queue and flushed are in the order
of their offsets. -/
theorem flush_addAll_failures {source : String} {failures : List ParseFailure}
    {queue : Queue digest}
    (hsize : source.utf8ByteSize < Span.maxOffset)
    (hstarts : ∀ failure ∈ failures, failure.StartsIn source)
    (hconfig : queue.config = .unlimited) (hempty : queue.entries = []) :
    (queue.addAll (failures.map (·.entryIn source))).flush.1 =
      (failures.mergeSort fun a b => a.offsetIn source ≤ b.offsetIn source).map
        fun failure => (LoweringError.parse failure).toDiagnostic := by
  have hentries : (queue.addAll (failures.map (·.entryIn source))).entries =
      failures.map (·.entryIn source) := by
    rw [Queue.entries_addAll_of_unlimited hconfig, hempty, List.nil_append]
  have hsort : (failures.mergeSort fun a b => a.offsetIn source ≤ b.offsetIn source).map
      (·.entryIn source) = (failures.map (·.entryIn source)).mergeSort Queue.entryIsLe := by
    refine List.map_mergeSort fun a ha b hb => ?_
    obtain ⟨first, hfirst, hinside, hposition⟩ := (hstarts a ha).exists_inside hsize
    obtain ⟨second, hsecond, hinside', hposition'⟩ := (hstarts b hb).exists_inside hsize
    rw [Queue.entryIsLe, hposition, hposition', ← hfirst, ← hsecond, Bool.eq_iff_iff,
      decide_eq_true_iff, isLe_positionIn_iff hsize hinside hinside']
  rw [Queue.flush, Queue.sorted_eq_mergeSort, hentries, ← hsort, List.map_map]
  rfl

/-! ## Reports -/

/-- A way to read texts reports the failures of the parser in the order of the text.
When the parser gives them for a text, nothing is read.  An empty unlimited queue then
flushes one syntax error for each of them, in the order of their offsets and, where
offsets are equal, in the order of the parser. -/
def ReportsInOrder {α : Type} (digest : Digest) (source : String) (failures : List ParseFailure)
    (entry : EntryPoint)
    (read : String → GrammarParser → Queue digest → Option α × Queue digest) : Prop :=
  ∀ (parser : GrammarParser) (queue : Queue digest), parser source entry = .error failures →
    queue.config = .unlimited → queue.entries = [] →
    ∃ ordered, IsStableSort (fun a b => decide (a ≤ b)) (·.offsetIn source) failures ordered ∧
      (read source parser queue).1.isNone ∧
      (read source parser queue).2.flush.1 =
        ordered.map (fun failure => (LoweringError.parse failure).toDiagnostic) ∧
      ∀ diagnostic ∈ (read source parser queue).2.flush.1, diagnostic.code = .e0001

/-- The failures of a parser are reported in the order of the text, whatever the entry
point is. -/
theorem reportsInOrder_run {α : Type} (digest : Digest) (entry : EntryPoint)
    (lower : Tree → Lowered α) {source : String} {failures : List ParseFailure}
    (hsize : source.utf8ByteSize < Span.maxOffset) (hne : failures ≠ [])
    (hstarts : ∀ failure ∈ failures, failure.StartsIn source) :
    ReportsInOrder digest source failures entry (run entry lower) := by
  intro parser queue hparser hconfig hempty
  have hreport : failuresToReport failures = failures :=
    if_neg (by simpa using hne)
  have hflush : (run entry lower source parser queue).2.flush.1 =
      (failures.mergeSort fun a b => a.offsetIn source ≤ b.offsetIn source).map
        fun failure => (LoweringError.parse failure).toDiagnostic := by
    rw [run_of_parser_error hparser, reportFailures_eq, hreport, List.map_map]
    exact flush_addAll_failures hsize hstarts hconfig hempty
  refine ⟨_, isStableSort_offsetIn source failures, ?_, hflush, fun diagnostic hdiagnostic => ?_⟩
  · rw [run_of_parser_error hparser]
    rfl
  · rw [hflush] at hdiagnostic
    obtain ⟨failure, -, rfl⟩ := List.mem_map.mp hdiagnostic
    exact (LoweringError.parse failure).code_toDiagnostic

/-- The three ways to read a text report the failures of the parser in the order of the
text when each of them starts between two characters or past the end. -/
theorem driver_reportsInOrder (digest : Digest) {source : String} {failures : List ParseFailure}
    (hsize : source.utf8ByteSize < Span.maxOffset) (hne : failures ≠ [])
    (hstarts : ∀ failure ∈ failures, failure.StartsIn source) :
    ReportsInOrder digest source failures .fileInput parseProgram ∧
      ReportsInOrder digest source failures .singleInput parseInteractive ∧
      ReportsInOrder digest source failures .evalInput parseExpression :=
  ⟨reportsInOrder_run digest .fileInput lowerFileInput hsize hne hstarts,
    reportsInOrder_run digest .singleInput lowerSingleInput hsize hne hstarts,
    reportsInOrder_run digest .evalInput lowerEvalInput hsize hne hstarts⟩

/-- An accented letter and a sign on two lines. -/
def accentedText : String :=
  "é\n+"

/-- Failures past the end, at the end, after the accented letter, at the start, and once
more past the end, in this order. -/
def scatteredFailures : List ParseFailure :=
  [ .reported ⟨9, 9⟩ "first", .reported ⟨4, 4⟩ "second", .reported ⟨2, 3⟩ "third",
    .reported ⟨0, 2⟩ "fourth", .reported ⟨5, 6⟩ "fifth"]

/-- A parser that gives these failures, whatever the text is. -/
def scatteredParser : GrammarParser :=
  fun _ _ => .error scatteredFailures

/-- The three failures at the end come out last, as the parser gave them. -/
theorem driver_reportsInOrder_scatteredFailures :
    accentedText.utf8ByteSize < Span.maxOffset ∧ scatteredFailures ≠ [] ∧
      (∀ failure ∈ scatteredFailures, failure.StartsIn accentedText) ∧
      ReportsInOrder .exact accentedText scatteredFailures .fileInput parseProgram ∧
      (parseProgram accentedText scatteredParser
        (.ofConfig .unlimited : Queue .exact)).2.flush.1.map
        Diagnostic.message = ["fourth", "third", "first", "second", "fifth"] := by
  have hsize : accentedText.utf8ByteSize < Span.maxOffset := by decide
  have hne : scatteredFailures ≠ [] := by decide
  have hstarts : ∀ failure ∈ scatteredFailures, failure.StartsIn accentedText := by
    simp only [scatteredFailures, List.forall_mem_cons]
    refine ⟨Or.inr (by decide), Or.inl ⟨['é', '\n', '+'], [], by decide, by decide⟩,
      Or.inl ⟨['é'], ['\n', '+'], by decide, by decide⟩,
      Or.inl ⟨[], ['é', '\n', '+'], by decide, by decide⟩, Or.inr (by decide), nofun⟩
  have hreports := (driver_reportsInOrder .exact hsize hne hstarts).1
  refine ⟨hsize, hne, hstarts, hreports, ?_⟩
  obtain ⟨ordered, hordered, -, hflush, -⟩ :=
    hreports scatteredParser (.ofConfig .unlimited) rfl rfl rfl
  have hsorted : scatteredFailures.mergeSort
      (fun a b => a.offsetIn accentedText ≤ b.offsetIn accentedText) =
      [ .reported ⟨0, 2⟩ "fourth", .reported ⟨2, 3⟩ "third", .reported ⟨9, 9⟩ "first",
        .reported ⟨4, 4⟩ "second", .reported ⟨5, 6⟩ "fifth"] := by
    have htext : accentedText.utf8ByteSize = 4 := by decide
    simp [scatteredFailures, ParseFailure.offsetIn, ParseFailure.reported, htext,
      List.mergeSort, List.MergeSort.Internal.splitInTwo]
  obtain rfl := hordered.unique (by simp) (by simpa using fun _ _ => Nat.le_antisymm)
    (isStableSort_offsetIn accentedText scatteredFailures)
  rw [hflush, hsorted]
  rfl

end ScriptLowering
