import ScriptLowering.Grammar.StatementForms
import ScriptLowering.Proofs.Displacement
import ScriptLowering.Proofs.PlacementBehindText

/-!
# Statements of a file apart from each other

A statement that begins a line is laid out as it would be in a file of its own, and
moved on by what stands in front of it; lowering it moves what it is lowered to.  So
a file is lowered statement by statement, and the first statement that fails alone
is the one that stops it.

Main results:

- Theorem `lowerStmt_place`: lowering a statement at the start of a line is
  lowering it alone and moving the result.
- Theorem `lowerLines_placeAll`: the lines of a file are lowered node by node.
- Theorem `file_lowersApart`: what a file is lowered to, from what its statements
  are lowered to alone.
-/

namespace ScriptLowering

/-! ## Statements at the start of a line -/

/-- Lowering a statement at the start of a line is lowering it alone and moving the result by the
size of the text in front of it. -/
theorem lowerStmt_place {page : Page} (hstart : page.atLineStart = true) {stmt : Tree}
    (h : stmt.NoneChildless) (hsize : (stmt.place page).2.text.utf8ByteSize ≤ Span.maxOffset) :
    lowerStmt (stmt.place page).1 =
      (lowerStmt stmt.layout.root).mapSpans (Span.shift page.text.utf8ByteSize)
        (Statement.mapSpans (Span.shift page.text.utf8ByteSize)) := by
  have hplace := Tree.place_of_atLineStart h hstart
  have hmerge := keepsMerges_push page.text.utf8ByteSize
  have hlimit : page.text.utf8ByteSize + (endOffset stmt.layout.source).toNat ≤ Span.maxOffset := by
    have htext : (stmt.place page).2.text = page.text ++ stmt.layout.source := by
      rw [hplace]
      rfl
    rw [htext, String.utf8ByteSize_append] at hsize
    rw [toNat_endOffset]
    omega
  -- Nothing is pushed past the last offset, because nothing stands behind the end of the source.
  have hfixed := congrArg lowerStmt stmt.mapSpans_upTo_layout
  rw [lowerStmt_mapSpans (keepsMerges_upTo _)] at hfixed
  rw [hplace, lowerStmt_mapSpans hmerge, ← hfixed, Lowered.mapSpans_mapSpans,
    Lowered.mapSpans_mapSpans, Statement.mapSpans_comp, Statement.mapSpans_comp,
    push_upTo_eq_shift_upTo hlimit]

/-! ## Lines of a file -/

namespace Tree

/-- A tree fills lines of its own when it is a line break, or a node without childless nodes in it
whose text ends with a line break. -/
def FillsLines : Tree → Prop
  | .leaf token => token.kind = .newline ∧ token.text = "\n"
  | .node rule children span =>
    (node rule children span).NoneChildless ∧
      (node rule children span).layout.source.toList.getLast? = some '\n'

instance : DecidablePred FillsLines
  | .leaf _ => inferInstanceAs (Decidable (_ ∧ _))
  | .node _ _ _ => inferInstanceAs (Decidable (_ ∧ _))

/-- A tree that fills lines of its own begins a line and is followed by one. -/
theorem FillsLines.atLineStart {tree : Tree} (h : tree.FillsLines) {page : Page}
    (hstart : page.atLineStart = true) : (tree.place page).2.atLineStart = true := by
  cases tree with
  | leaf token =>
      rw [place_leaf, Page.write, Page.atLineStartAfter, h.2]
      rfl
  | node rule children span =>
      have hknows : ((node rule children span).place .blank).2.KnowsLineStart := by
        rw [(Prod.mk.inj (tokens_place _ _)).2]
        exact Page.knowsLineStart_blank.writeAll _
      rw [place_of_atLineStart h.1 hstart]
      exact hknows h.2

end Tree

/-! ## Statements and what stands in front of them -/

/-- A node of a file, with the number of bytes that are laid out in front of it. -/
structure Block where
  tree : Tree
  offset : Nat
  isSome_rule? : tree.rule?.isSome

/-- The nodes of some lines that are written to a page. -/
def blocksFrom (page : Page) : List Tree → List Block
  | [] => []
  | .leaf token :: lines => blocksFrom (page.write token).2 lines
  | .node rule children span :: lines =>
    ⟨.node rule children span, page.text.utf8ByteSize, rfl⟩ ::
      blocksFrom ((Tree.node rule children span).place page).2 lines

/-- The nodes of a file. -/
def Tree.blocks (lines : List Tree) : List Block :=
  blocksFrom .blank lines

namespace Block

/-- What a node is lowered to in a file that holds nothing else. -/
def lowerAlone (block : Block) : Lowered Program :=
  lowerFileInput (Tree.file [block.tree]).layout.root

/-- What a node is lowered to in the place where it stands. -/
def lower (block : Block) : Lowered Statement :=
  (lowerStmt block.tree.layout.root).mapSpans (Span.shift block.offset)
    (Statement.mapSpans (Span.shift block.offset))

end Block

/-- The marker at the end of a file contributes nothing. -/
theorem lowerLines_endmarker (page : Page) :
    lowerLines (Tree.placeAll page [.leaf .endmarker]).1 = .ok [] := by
  have hstructural : (page.write .endmarker).1.isStructural = true := rfl
  rw [Tree.placeAll_cons, Tree.place_leaf, lowerLines, if_pos hstructural, Tree.placeAll,
    lowerLines]

/-- A node is lowered before the lines that follow it. -/
theorem lowerLines_placeAll_cons {tree : Tree} (h : tree.rule?.isSome) (page : Page)
    (lines : List Tree) :
    lowerLines (Tree.placeAll page (tree :: lines)).1 = (do
      let statement ← lowerStmt (tree.place page).1
      let statements ← lowerLines (Tree.placeAll (tree.place page).2 lines).1
      return statement :: statements) := by
  cases tree with
  | leaf token => contradiction
  | node rule children span =>
      rw [Tree.placeAll_cons, Tree.place_node, Tree.ofChildren, lowerLines]

/-- The lines of a file are lowered node by node. -/
theorem lowerLines_placeAll {page : Page} {lines : List Tree} (hstart : page.atLineStart = true)
    (hlines : ∀ line ∈ lines, line.FillsLines)
    (hsize : (Tree.placeAll page (lines ++ [.leaf .endmarker])).2.text.utf8ByteSize ≤
      Span.maxOffset) :
    lowerLines (Tree.placeAll page (lines ++ [.leaf .endmarker])).1 =
      (blocksFrom page lines).mapM Block.lower := by
  induction lines generalizing page with
  | nil => exact lowerLines_endmarker page
  | cons line lines ih =>
      have hfills := hlines line List.mem_cons_self
      have hrest := ih (hfills.atLineStart hstart)
        (fun other hother => hlines other (List.mem_cons_of_mem _ hother)) hsize
      cases line with
      | leaf token =>
          have hstructural : (page.write token).1.isStructural = true := by
            rw [Token.isStructural, Page.write, hfills.1]
            rfl
          rw [Tree.place_leaf] at hrest
          rw [List.cons_append, Tree.placeAll_cons, Tree.place_leaf, lowerLines,
            if_pos hstructural, hrest, blocksFrom]
      | node rule children span =>
          have hstmt : ((Tree.node rule children span).place page).2.text.utf8ByteSize ≤
              Span.maxOffset := by
            obtain ⟨more, hmore⟩ := Page.exists_text_writeAll
              ((Tree.node rule children span).place page).2
              ((lines ++ [Tree.leaf .endmarker]).flatMap Tree.tokens)
            rw [List.cons_append, Tree.placeAll_cons, Tree.snd_placeAll, hmore,
              String.utf8ByteSize_append] at hsize
            omega
          rw [List.cons_append, lowerLines_placeAll_cons rfl, lowerStmt_place hstart hfills.1 hstmt,
            hrest, blocksFrom, List.mapM_cons]
          rfl

/-- A file is laid out line by line. -/
theorem Tree.layout_file (lines : List Tree) :
    (file lines).layout =
      ⟨(placeAll .blank (lines ++ [.leaf .endmarker])).2.text,
        ofChildren .fileInput (placeAll .blank (lines ++ [.leaf .endmarker])).1⟩ := by
  rw [layout, file, ofChildren, place_node]

/-- A file is lowered by lowering the lines that it was laid out from. -/
theorem lowerFileInput_layout_file (lines : List Tree) :
    lowerFileInput (Tree.file lines).layout.root = (do
      let statements ← lowerLines (Tree.placeAll .blank (lines ++ [.leaf .endmarker])).1
      return ⟨statements⟩) := by
  rw [Tree.layout_file, lowerFileInput, Tree.children_ofChildren]
  exact if_pos rfl

/-- The only node of a file gives the only statement of the script. -/
theorem Block.lowerAlone_eq (block : Block) : block.lowerAlone = (do
    let statement ← lowerStmt block.tree.layout.root
    return ⟨[statement]⟩) := by
  rw [lowerAlone, lowerFileInput_layout_file, List.cons_append, List.nil_append,
    lowerLines_placeAll_cons block.isSome_rule?, lowerLines_endmarker]
  change (lowerStmt block.tree.layout.root >>= _) >>= _ = lowerStmt block.tree.layout.root >>= _
  cases lowerStmt block.tree.layout.root with
  | ok statement => rfl
  | error error => rfl

/-- A node that is lowered alone to a statement is lowered in its place to the
statement moved there. -/
theorem Block.lower_eq_ok_iff {block : Block} {statement : Statement} :
    block.lower = .ok statement ↔ ∃ own, block.lowerAlone = .ok ⟨[own]⟩ ∧
      statement = own.mapSpans (Span.shift block.offset) := by
  rw [lowerAlone_eq, lower]
  cases lowerStmt block.tree.layout.root with
  | ok own => simp [bind, Except.bind, pure, Except.pure, eq_comm]
  | error error => simp [bind, Except.bind]

/-- A node that is stopped alone is stopped in its place by the error moved there. -/
theorem Block.lower_eq_error {block : Block} {error : LoweringError}
    (h : block.lowerAlone = .error error) :
    block.lower = .error (error.mapSpan (Span.shift block.offset)) := by
  rw [lowerAlone_eq] at h
  rw [lower]
  cases hstmt : lowerStmt block.tree.layout.root with
  | ok own => simp [hstmt, bind, Except.bind, pure, Except.pure] at h
  | error own =>
      rw [hstmt] at h
      obtain rfl := Except.error.inj h
      rfl

/-! ## Sequences of steps -/

namespace Lowered

variable {α β : Type} {step : α → Lowered β} {items : List α}

/-- Steps in sequence give what the single steps give. -/
theorem forall₂_of_mapM_eq_ok {results : List β} (h : items.mapM step = .ok results) :
    List.Forall₂ (fun item result => step item = .ok result) items results := by
  induction items generalizing results with
  | nil =>
      obtain rfl := Except.ok.inj h
      exact .nil
  | cons item items ih =>
      rw [List.mapM_cons] at h
      obtain ⟨result, hitem, h⟩ := bind_eq_ok.mp h
      obtain ⟨rest, hrest, h⟩ := bind_eq_ok.mp h
      obtain rfl := Except.ok.inj h
      exact .cons hitem (ih hrest)

/-- Steps in sequence succeed exactly when every single step does. -/
theorem exists_mapM_eq_ok_iff :
    (∃ results, items.mapM step = .ok results) ↔
      ∀ item ∈ items, ∃ result, step item = .ok result := by
  induction items with
  | nil => exact iff_of_true ⟨[], rfl⟩ (by simp)
  | cons item items ih =>
      rw [List.mapM_cons, List.forall_mem_cons, ← ih]
      constructor
      · rintro ⟨results, h⟩
        obtain ⟨result, hitem, h⟩ := bind_eq_ok.mp h
        obtain ⟨rest, hrest, h⟩ := bind_eq_ok.mp h
        exact ⟨⟨result, hitem⟩, rest, hrest⟩
      · rintro ⟨⟨result, hitem⟩, rest, hrest⟩
        exact ⟨result :: rest, bind_eq_ok.mpr ⟨result, hitem, bind_eq_ok.mpr ⟨rest, hrest, rfl⟩⟩⟩

/-- Steps in sequence stop at the first one that fails. -/
theorem mapM_eq_error {earlier later : List α} {item : α} {error : LoweringError}
    (hearlier : ∀ other ∈ earlier, ∃ result, step other = .ok result)
    (hitem : step item = .error error) : (earlier ++ item :: later).mapM step = .error error := by
  induction earlier with
  | nil =>
      rw [List.nil_append, List.mapM_cons, hitem]
      rfl
  | cons first earlier ih =>
      obtain ⟨⟨result, hfirst⟩, hrest⟩ := List.forall_mem_cons.mp hearlier
      rw [List.cons_append, List.mapM_cons, hfirst, ih hrest]
      rfl

end Lowered

/-! ## Files -/

/-- The statements of a file are lowered apart from each other: the file is lowered exactly when
each of them is lowered alone, to what they are lowered to alone, each moved to its place; and it
is stopped by the error of the first one that fails alone, moved to its place. -/
structure LowersApart (lines : List Tree) : Prop where
  succeeds_iff : (∃ program, lowerFileInput (Tree.file lines).layout.root = .ok program) ↔
    ∀ block ∈ Tree.blocks lines, ∃ program, block.lowerAlone = .ok program
  body : ∀ program, lowerFileInput (Tree.file lines).layout.root = .ok program →
    List.Forall₂ (fun block statement => ∃ own, block.lowerAlone = .ok ⟨[own]⟩ ∧
      statement = own.mapSpans (Span.shift block.offset)) (Tree.blocks lines) program.body
  error : ∀ earlier block later error, Tree.blocks lines = earlier ++ block :: later →
    (∀ other ∈ earlier, ∃ program, other.lowerAlone = .ok program) →
    block.lowerAlone = .error error →
    lowerFileInput (Tree.file lines).layout.root =
      .error (error.mapSpan (Span.shift block.offset))

/-- Statements and line breaks that fill lines of their own are lowered apart from each other. -/
theorem file_lowersApart {lines : List Tree} (hlines : ∀ line ∈ lines, line.FillsLines)
    (hsize : (Tree.file lines).layout.source.utf8ByteSize ≤ Span.maxOffset) :
    LowersApart lines := by
  rw [Tree.layout_file] at hsize
  have hfile : lowerFileInput (Tree.file lines).layout.root = (do
      let statements ← (Tree.blocks lines).mapM Block.lower
      return ⟨statements⟩) := by
    rw [lowerFileInput_layout_file, lowerLines_placeAll rfl hlines hsize, Tree.blocks]
  have halone : ∀ block : Block, (∃ program, block.lowerAlone = .ok program) ↔
      ∃ statement, block.lower = .ok statement := by
    intro block
    rw [block.lowerAlone_eq, Block.lower]
    cases lowerStmt block.tree.layout.root with
    | ok own => exact iff_of_true ⟨_, rfl⟩ ⟨_, rfl⟩
    | error error => exact iff_of_false nofun nofun
  constructor
  · simp only [halone]
    rw [← Lowered.exists_mapM_eq_ok_iff, hfile]
    constructor
    · rintro ⟨program, hprogram⟩
      obtain ⟨statements, hstatements, -⟩ := Lowered.bind_eq_ok.mp hprogram
      exact ⟨statements, hstatements⟩
    · rintro ⟨statements, hstatements⟩
      exact ⟨⟨statements⟩, Lowered.bind_eq_ok.mpr ⟨statements, hstatements, rfl⟩⟩
  · intro program hprogram
    rw [hfile] at hprogram
    obtain ⟨statements, hstatements, hbody⟩ := Lowered.bind_eq_ok.mp hprogram
    obtain rfl := Except.ok.inj hbody
    refine (Lowered.forall₂_of_mapM_eq_ok hstatements).imp ?_
    intro block statement hstatement
    exact Block.lower_eq_ok_iff.mp hstatement
  · intro earlier block later error hblocks hearlier herror
    have hblock : block.lower = .error (error.mapSpan (Span.shift block.offset)) :=
      Block.lower_eq_error herror
    rw [hfile, hblocks, Lowered.mapM_eq_error (fun other hother =>
      (halone other).mp (hearlier other hother)) hblock]
    rfl

/-- A statement, a blank line, a statement that adds a constant that a script does not have, and a
statement that is not lowered either. -/
def rejectedThird : List Tree :=
  [ .statement (.identifier "a"),
    .leaf .newline,
    .statement (.chain .arithExpr (.identifier "b") [("+", .constant "None")]),
    .statement (.constant "None")]

/-- The constant stands four bytes into its own statement, which begins at the
third byte of the file. -/
theorem file_lowersApart_rejectedThird :
    (∀ line ∈ rejectedThird, line.FillsLines) ∧
      (Tree.file rejectedThird).layout.source = "a\n\nb + None\nNone\n" ∧
      (Tree.blocks rejectedThird).map Block.offset = [0, 3, 12] ∧
      (Tree.blocks rejectedThird).map Block.lowerAlone =
        [ .ok ⟨[.expression (.literal (.name "a") "a" ⟨0, 1⟩) ⟨0, 1⟩]⟩,
          refuse .noneLiteral ⟨4, 8⟩, refuse .noneLiteral ⟨0, 4⟩] ∧
      lowerFileInput (Tree.file rejectedThird).layout.root = refuse .noneLiteral ⟨7, 11⟩ := by
  have hlines : ∀ line ∈ rejectedThird, line.FillsLines := by decide
  have hsize : (Tree.file rejectedThird).layout.source.utf8ByteSize ≤ Span.maxOffset := by decide
  have hthird := (file_lowersApart hlines hsize).error [⟨.statement (.identifier "a"), 0, rfl⟩]
    ⟨.statement (.chain .arithExpr (.identifier "b") [("+", .constant "None")]), 3, rfl⟩
    [⟨.statement (.constant "None"), 12, rfl⟩] (.unsupported ⟨.noneLiteral, ⟨4, 8⟩⟩) rfl
    (by
      intro other hother
      rw [List.mem_singleton.mp hother]
      exact ⟨⟨[.expression (.literal (.name "a") "a" ⟨0, 1⟩) ⟨0, 1⟩]⟩, by decide⟩)
    (by decide)
  exact ⟨hlines, by decide, by decide, by decide, hthird⟩

end ScriptLowering
