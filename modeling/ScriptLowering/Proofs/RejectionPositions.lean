import ScriptLowering.Grammar.StatementForms
import ScriptLowering.Proofs.DriverContract
import ScriptLowering.Proofs.ErrorPlaces
import ScriptLowering.Proofs.LinePositions
import ScriptLowering.Proofs.SpanFidelity

/-!
# Where rejections are reported

A tree that is laid out and then rejected is reported at one position of its
source.  The error points at a part of the tree, the part begins with one of its
tokens, and the token begins between two characters of the source; the line and
the column that are reported count from there.

Main results:

- Theorem `Tree.stands_of_noneChildless`: in a tree without childless nodes every
  part stands where its tokens stand.
- Theorem `reportsInPlace_run`: what is rejected after parsing is reported in its
  place, whatever the entry point is.
- Theorem `driver_reportsInPlace`: the three ways to read a text report a
  rejection in its place.
-/

namespace ScriptLowering

/-! ## Parts of a tree in a text -/

namespace Tree

theorem IsPartOf.trans {part inner tree : Tree} (h : part.IsPartOf inner)
    (hinner : inner.IsPartOf tree) : part.IsPartOf tree := by
  induction hinner with
  | refl => exact h
  | child hchild _ ih => exact .child hchild ih

/-- The tokens of a part are among those of the tree, in order. -/
theorem IsPartOf.tokens_sublist {part tree : Tree} (h : part.IsPartOf tree) :
    part.tokens.Sublist tree.tokens := by
  induction h with
  | refl => exact List.Sublist.refl _
  | child hchild _ ih =>
      rw [tokens_node, List.flatMap_def]
      exact ih.trans (List.sublist_flatten_of_mem (List.mem_map_of_mem hchild))

/-- In a tree without childless nodes a tree stands where its tokens stand. -/
theorem stands_of_noneChildless {source : String} {tree : Tree} (h : tree.NoneChildless)
    (hcovered : tree.Covered) (hplace : InPlace source tree.tokens) : tree.Stands := by
  induction tree using Tree.inductionOnChildren with
  | leaf token =>
      rw [Stands, tokens_leaf]
      exact Occupy.singleton token
  | node rule children span ih =>
      have hne : children ≠ [] := h .refl
      have hchildren : ∀ child ∈ children, child.Stands := by
        intro child hchild
        exact ih child hchild (h.child hchild) (hcovered.child hchild)
          (inPlace_child hplace hchild)
      have hfirst := hchildren _ (List.head_mem hne)
      have hlast := hchildren _ (List.getLast_mem hne)
      rw [tokens_node] at hplace
      have hspan : span = cover children := hcovered .refl
      rw [Stands, tokens_node, span_node, hspan]
      exact occupy_cover (List.head?_eq_some_head hne) (List.getLast?_eq_some_getLast hne) hplace
        hfirst hlast

/-- Every part of a tree that was laid out stands where its tokens stand. -/
theorem stands_of_isPartOf {tree part : Tree} (h : tree.NoneChildless)
    (hsize : tree.layout.source.utf8ByteSize ≤ Span.maxOffset)
    (hpart : part.IsPartOf tree.layout.root) : part.Stands := by
  have hroot : tree.layout.root.NoneChildless := h.place .blank
  refine stands_of_noneChildless ?_ ?_ ((inPlace_layout hsize).sublist hpart.tokens_sublist)
  · intro rule children span hinner
    exact hroot (hinner.trans hpart)
  · intro rule children span hinner
    exact tree.covered_layout (hinner.trans hpart)

/-- A part of a tree that was laid out begins with a token of the tree. -/
theorem exists_token_of_isPartOf {tree part : Tree} (h : tree.NoneChildless)
    (hsize : tree.layout.source.utf8ByteSize ≤ Span.maxOffset)
    (hpart : part.IsPartOf tree.layout.root) :
    ∃ token ∈ tree.layout.root.tokens, token.span.start = part.span.start := by
  obtain ⟨first, hfirst, hstart⟩ := (stands_of_isPartOf h hsize hpart).start_eq
  exact ⟨first, hpart.tokens_sublist.subset (List.mem_of_mem_head? hfirst), hstart.symm⟩

end Tree

/-! ## Reports -/

/-- A way to read texts reports the rejection of a tree that was laid out in its
place: an empty unlimited queue holds one diagnostic afterwards, the one for the
error.  Its primary span is that of a part of the tree and begins with a token of
the tree, and its position counts the line breaks before that token and the
characters after the last of them. -/
def ReportsInPlace {α : Type} (digest : Digest) (layout : Layout) (entry : EntryPoint)
    (lower : Tree → Lowered α)
    (read : String → GrammarParser → Queue digest → Option α × Queue digest) : Prop :=
  ∀ (error : LoweringError) (parser : GrammarParser) (queue : Queue digest),
    lower layout.root = .error error → parser layout.source entry = .ok layout.root →
    queue.config = .unlimited → queue.entries = [] →
    ∃ position, (read layout.source parser queue).2.entries = [⟨error.toDiagnostic, position⟩] ∧
      error.toDiagnostic.primarySpan? = some error.span ∧
      (∃ part : Tree, part.IsPartOf layout.root ∧ part.span = error.span) ∧
      (∃ token ∈ layout.root.tokens, token.span.start = error.span.start) ∧
      position.IsAt layout.source error.span.start.toNat

/-- What is rejected after parsing is reported in its place when the errors of the
lowering point into the tree. -/
theorem reportsInPlace_run {α : Type} (digest : Digest) {lower : Tree → Lowered α}
    (hpoints : ∀ root, PointsInto root (lower root)) (entry : EntryPoint) {tree : Tree}
    (hchildren : tree.NoneChildless) (hsize : tree.layout.source.utf8ByteSize < Span.maxOffset) :
    ReportsInPlace digest tree.layout entry lower (run entry lower) := by
  intro error parser queue herror hparser hconfig hempty
  have hmeasured := Nat.le_of_lt hsize
  obtain ⟨part, hpart, hpoint⟩ := hpoints _ error herror
  obtain ⟨token, htoken, hstart⟩ :=
    Tree.exists_token_of_isPartOf hchildren hmeasured hpart
  have hslice := ((Tree.inPlace_layout hmeasured).standsIn token htoken).slice?_eq
  obtain ⟨before, after, hparts, hbytes⟩ := Text.exists_of_slice? hslice
  rw [List.append_assoc] at hparts
  rw [← hpoint.span_eq] at hstart
  rw [hstart] at hbytes
  have hentries : (run entry lower tree.layout.source parser queue).2.entries =
      [error.entryIn tree.layout.source] := by
    rw [run_of_lowering_error hparser herror, report_snd,
      Queue.entries_addAll_of_unlimited hconfig, hempty, List.nil_append]
  exact ⟨positionIn tree.layout.source error.span.start, hentries,
    error.primarySpan?_toDiagnostic, ⟨part, hpart, hpoint.span_eq.symm⟩, ⟨token, htoken, hstart⟩,
    positionIn_isAt hparts hbytes hsize⟩

/-- The three ways to read a text report a rejection in its place. -/
theorem driver_reportsInPlace (digest : Digest) {tree : Tree} (hchildren : tree.NoneChildless)
    (hsize : tree.layout.source.utf8ByteSize < Span.maxOffset) :
    ReportsInPlace digest tree.layout .fileInput lowerFileInput parseProgram ∧
      ReportsInPlace digest tree.layout .singleInput lowerSingleInput parseInteractive ∧
      ReportsInPlace digest tree.layout .evalInput lowerEvalInput parseExpression :=
  ⟨reportsInPlace_run digest lowerFileInput_pointsInto .fileInput hchildren hsize,
    reportsInPlace_run digest lowerSingleInput_pointsInto .singleInput hchildren hsize,
    reportsInPlace_run digest lowerEvalInput_pointsInto .evalInput hchildren hsize⟩

/-- Two lines; the second adds a constant that a script does not have to a string with an accented
letter. -/
def rejectedFile : Tree :=
  .file
    [ .statement (.identifier "a"),
      .statement (.chain .arithExpr (.stringLiteral "\"é\"") [("+", .constant "None")])]

/-- A parser that reads that file, whatever the text is. -/
def rejectedFileParser : GrammarParser :=
  fun _ _ => .ok rejectedFile.layout.root

/-- The constant begins nine bytes into the source, at the seventh character of
the second line. -/
theorem driver_reportsInPlace_rejectedFile :
    rejectedFile.NoneChildless ∧ rejectedFile.layout.source = "a\n\"é\" + None\n" ∧
      lowerFileInput rejectedFile.layout.root = refuse .noneLiteral ⟨9, 13⟩ ∧
      (parseProgram rejectedFile.layout.source rejectedFileParser
        (.ofConfig .unlimited : Queue .exact)).2.entries =
        [⟨(LoweringError.unsupported ⟨.noneLiteral, ⟨9, 13⟩⟩).toDiagnostic, ⟨2, 7⟩⟩] ∧
      Position.IsAt rejectedFile.layout.source 9 ⟨2, 7⟩ := by
  have hchildren : rejectedFile.NoneChildless := by decide
  have hsize : rejectedFile.layout.source.utf8ByteSize < Span.maxOffset := by decide
  have herror : lowerFileInput rejectedFile.layout.root = refuse .noneLiteral ⟨9, 13⟩ := by decide
  have hqueued : (parseProgram rejectedFile.layout.source rejectedFileParser
      (.ofConfig .unlimited : Queue .exact)).2.entries =
        [⟨(LoweringError.unsupported ⟨.noneLiteral, ⟨9, 13⟩⟩).toDiagnostic, ⟨2, 7⟩⟩] := by decide
  obtain ⟨position, hentries, -, -, -, hposition⟩ :=
    (driver_reportsInPlace .exact hchildren hsize).1 _ rejectedFileParser (.ofConfig .unlimited)
      herror rfl rfl rfl
  obtain rfl : ⟨2, 7⟩ = position :=
    (QueueEntry.mk.inj (List.singleton_inj.mp (hqueued.symm.trans hentries))).2
  exact ⟨hchildren, by decide, herror, hqueued, hposition⟩

end ScriptLowering
