import ScriptLowering.Grammar.Layout
import ScriptLowering.Grammar.StatementForms
import ScriptLowering.Proofs.DriverContract
import ScriptLowering.Proofs.FileDescent

/-!
# One input at several entry points

A single statement can be read as a file and as an interactive input, and an expression on
its own as well.  The three entry points look at the nodes around the statement in different
ways and stop at different shapes, but once they have come to the statement they go on in the
same way.  What they are lowered to is therefore the same, or they stop with the same error,
at whatever depth that is, and the driver reports the error in the same way.

Main definitions:

- `Tree.IsOnlyStatementIn`, `Tree.IsEnteredAs`, `Tree.IsEvaluatedAs`: a statement is all that
  a file holds, or all of an interactive input; an expression is an input on its own.
- `Tree.IsOnlyOperandIn`: an operand is all that a line holds.

Main results:

- Theorem `lowerSingleInput_eq_lowerFileInput`: interactive inputs are lowered as files.
- Theorem `lowerFileInput_eq_map_lowerEvalInput`: a file of a single value is lowered to what
  the value is lowered to on its own.
- Theorem `run_eq_map_run`: the driver carries an agreement of two lowerings over to what is
  read and what is reported.
- Theorem `entryPoints_agree`: the three ways to read a text agree.
-/

namespace ScriptLowering

/-! ## Inputs of a single statement -/

namespace Tree

/-- A statement is the only one in a file.  Structural tokens may stand around it. -/
inductive IsOnlyStatementIn (body : Tree) : Tree → Prop
  | intro {before after : List Token} {place span : Span}
      (hbefore : ∀ token ∈ before, token.isStructural)
      (hafter : ∀ token ∈ after, token.isStructural) :
      IsOnlyStatementIn body
        (.node .fileInput (before.map .leaf ++ .node .stmt [body] place :: after.map .leaf) span)

/-- A statement is an interactive input: a line, or a compound statement with the line break
behind it. -/
inductive IsEnteredAs (body : Tree) : Tree → Prop
  | line {span : Span} (hbody : body.rule? = some .simpleStmt) :
      IsEnteredAs body (.node .singleInput [body] span)
  | compound {newline : Token} {span : Span} (hbody : body.rule? = some .compoundStmt)
      (hnewline : newline.kind = .newline) :
      IsEnteredAs body (.node .singleInput [body, .leaf newline] span)

/-- A list of tests is an input on its own.  Structural tokens may stand behind it. -/
inductive IsEvaluatedAs (list : Tree) : Tree → Prop
  | intro {ends : List Token} {span : Span} (hlist : list.rule? = some .testlist)
      (hends : ∀ token ∈ ends, token.isStructural) :
      IsEvaluatedAs list (.node .evalInput (list :: ends.map .leaf) span)

/-- An operand is the only one in a line: the line holds nothing but an expression statement at
the given place, which has no other child.  Separators may stand around it. -/
inductive IsOnlyOperandIn (operand : Tree) : Tree → Span → Prop
  | intro {before after : List Tree} {place spot span : Span}
      (hbefore : ∀ child ∈ before, isSeparator child)
      (hafter : ∀ child ∈ after, isSeparator child) :
      IsOnlyOperandIn operand
        (.node .simpleStmt
          (before ++ .node .smallStmt [.node .exprStmt [operand] place] spot :: after) span)
        place

end Tree

/-! ## Statements on their own -/

/-- Structural tokens in front of lines contribute nothing. -/
theorem lowerLines_append_of_isStructural {before : List Token}
    (h : ∀ token ∈ before, token.isStructural) (lines : List Tree) :
    lowerLines (before.map .leaf ++ lines) = lowerLines lines := by
  induction before with
  | nil => rfl
  | cons token before ih =>
      obtain ⟨htoken, hbefore⟩ := List.forall_mem_cons.mp h
      rw [List.map_cons, List.cons_append, lowerLines, if_pos htoken]
      exact ih hbefore

/-- A file of a single statement is lowered as the statement. -/
theorem Tree.IsOnlyStatementIn.exists_lowerFileInput_eq {body file : Tree}
    (h : body.IsOnlyStatementIn file) :
    ∃ place, lowerFileInput file =
      (lowerStmt (.node .stmt [body] place)).map fun statement => ⟨[statement]⟩ := by
  cases h with
  | @intro before after place span hbefore hafter =>
      have hend : lowerLines (after.map .leaf) = .ok [] := by
        have happend := lowerLines_append_of_isStructural hafter []
        rwa [List.append_nil] at happend
      have hlines : lowerLines
          (before.map .leaf ++ .node .stmt [body] place :: after.map .leaf) =
            (lowerStmt (.node .stmt [body] place)).map fun statement => [statement] := by
        rw [lowerLines_append_of_isStructural hbefore, lowerLines, hend]
        cases lowerStmt (.node .stmt [body] place) <;> rfl
      refine ⟨place, ?_⟩
      unfold lowerFileInput
      rw [children_node, hlines]
      cases lowerStmt (.node .stmt [body] place) <;> rfl

/-- A file of a single line is lowered as the line. -/
theorem Tree.IsOnlyStatementIn.lowerFileInput_line {line file : Tree}
    (h : line.IsOnlyStatementIn file) (hline : line.rule? = some .simpleStmt) :
    lowerFileInput file = (lowerSimpleStmt line).map fun statement => ⟨[statement]⟩ := by
  obtain ⟨place, hfile⟩ := h.exists_lowerFileInput_eq
  rw [hfile, eq_node_of_rule? hline]
  rfl

/-- An interactive input of a line is lowered as the line. -/
theorem lowerSingleInput_line {line : Tree} (span : Span) (hline : line.rule? = some .simpleStmt) :
    lowerSingleInput (.node .singleInput [line] span) =
      (lowerSimpleStmt line).map fun statement => ⟨[statement]⟩ := by
  have hsingle : lowerSingleInput (.node .singleInput [line] span) =
      lowerSimpleStmt line >>= fun statement => .ok ⟨[statement]⟩ := by
    rw [Tree.eq_node_of_rule? hline]
    rfl
  rw [hsingle]
  cases lowerSimpleStmt line <;> rfl

/-- A compound statement is refused with one error, whatever it would have been a part of. -/
theorem exists_refuseCompound_eq (compound : Tree) :
    ∃ error, ∀ α : Type, (refuseCompound compound : Lowered α) = .error error := by
  unfold refuseCompound refuseCompoundRule
  cases compound.childNodes with
  | nil => exact ⟨_, fun α => rfl⟩
  | cons inner rest =>
      dsimp only
      cases inner.rule?.bind Construct.ofCompoundRule? with
      | none => exact ⟨_, fun α => rfl⟩
      | some construct => exact ⟨_, fun α => rfl⟩

/-- A file of a single compound statement stops at the statement. -/
theorem Tree.IsOnlyStatementIn.lowerFileInput_compound {compound file : Tree}
    (h : compound.IsOnlyStatementIn file) (hcompound : compound.rule? = some .compoundStmt) :
    lowerFileInput file = refuseCompound compound := by
  obtain ⟨place, hfile⟩ := h.exists_lowerFileInput_eq
  obtain ⟨error, herror⟩ := exists_refuseCompound_eq compound
  have hstmt : lowerStmt (.node .stmt [compound] place) = refuseCompound compound := by
    rw [eq_node_of_rule? hcompound]
    rfl
  rw [hfile, hstmt, herror, herror]
  rfl

/-- An interactive input of a compound statement stops at the statement. -/
theorem lowerSingleInput_compound {compound : Tree} {newline : Token} (span : Span)
    (hcompound : compound.rule? = some .compoundStmt) (hnewline : newline.kind = .newline) :
    lowerSingleInput (.node .singleInput [compound, .leaf newline] span) =
      refuseCompound compound := by
  unfold lowerSingleInput
  rw [Tree.children_node]
  simp [hcompound, hnewline]

/-- An interactive input is lowered as the file that holds the same statement. -/
theorem lowerSingleInput_eq_lowerFileInput {body single file : Tree}
    (hsingle : body.IsEnteredAs single) (hfile : body.IsOnlyStatementIn file) :
    lowerSingleInput single = lowerFileInput file := by
  cases hsingle with
  | line hbody => rw [lowerSingleInput_line _ hbody, hfile.lowerFileInput_line hbody]
  | compound hbody hnewline =>
      rw [lowerSingleInput_compound _ hbody hnewline, hfile.lowerFileInput_compound hbody]

/-! ## Expressions on their own -/

/-- A line of a single list of tests is lowered as the list. -/
theorem Tree.IsOnlyOperandIn.lowerSimpleStmt_eq {list line : Tree} {place : Span}
    (h : list.IsOnlyOperandIn line place) (hlist : list.rule? = some .testlist) :
    lowerSimpleStmt line = (lowerTestlist list).map fun e => .expression e place := by
  cases h with
  | @intro before after _ spot span hbefore hafter =>
      have hparts : ∀ stmt : Tree, readParts stmt [list] = .ok [.operand list] := by
        intro stmt
        exact readParts_eq_ok_iff.mpr (.cons (.operand (Or.inr (Or.inl hlist))) .nil)
      have hvalue : lowerValue list = lowerTestlist list := by
        unfold lowerValue
        rw [hlist]
      rw [lowerSimpleStmt_of_separators hbefore rfl hafter, lowerSmallStmt_exprStmt rfl,
        lowerExprStmt_of_value (hparts _), hvalue]
      cases lowerTestlist list <;> rfl

/-- Structural tokens may end an input. -/
theorem checkEnd_of_isStructural {ends : List Token} (h : ∀ token ∈ ends, token.isStructural) :
    checkEnd (ends.map .leaf) = .ok () := by
  induction ends with
  | nil => rfl
  | cons token ends ih =>
      obtain ⟨htoken, hends⟩ := List.forall_mem_cons.mp h
      rw [List.map_cons, checkEnd, if_pos htoken]
      exact ih hends

/-- A list of tests on its own is lowered as the list. -/
theorem Tree.IsEvaluatedAs.lowerEvalInput_eq {list evaluated : Tree}
    (h : list.IsEvaluatedAs evaluated) : lowerEvalInput evaluated = lowerTestlist list := by
  cases h with
  | @intro ends span hlist hends =>
      rw [eq_node_of_rule? hlist]
      unfold lowerEvalInput
      rw [children_node]
      dsimp only
      rw [checkEnd_of_isStructural hends]
      rfl

theorem Tree.IsEvaluatedAs.rule?_eq {list evaluated : Tree} (h : list.IsEvaluatedAs evaluated) :
    list.rule? = some .testlist := by
  cases h with
  | intro hlist _ => exact hlist

/-- A file of a single list of tests is lowered to what the list is lowered to on its own, as
the value of its only statement. -/
theorem lowerFileInput_eq_map_lowerEvalInput {list evaluated line file : Tree} {place : Span}
    (hevaluated : list.IsEvaluatedAs evaluated) (hline : list.IsOnlyOperandIn line place)
    (hfile : line.IsOnlyStatementIn file) :
    lowerFileInput file = (lowerEvalInput evaluated).map fun e => ⟨[.expression e place]⟩ := by
  have hrule : line.rule? = some .simpleStmt := by
    cases hline
    rfl
  rw [hfile.lowerFileInput_line hrule, hline.lowerSimpleStmt_eq hevaluated.rule?_eq,
    hevaluated.lowerEvalInput_eq]
  cases lowerTestlist list <;> rfl

/-! ## Reading a text -/

/-- Two entry points that lower their trees alike read the same from a text that is parsed to
these trees, and leave the same queue. -/
theorem run_eq_map_run {α β : Type} {entry entry' : EntryPoint} {lower : Tree → Lowered α}
    {lower' : Tree → Lowered β} {f : α → β} {root root' : Tree} {source : String}
    {parser parser' : GrammarParser} (hlower : lower' root' = (lower root).map f)
    (hparse : parser source entry = .ok root) (hparse' : parser' source entry' = .ok root')
    {digest : Digest} (queue : Queue digest) :
    run entry' lower' source parser' queue =
      (run entry lower source parser queue).map (Option.map f) id := by
  cases hresult : lower root with
  | error error =>
      rw [hresult] at hlower
      rw [run_of_lowering_error hparse hresult, run_of_lowering_error hparse' hlower]
      rfl
  | ok result =>
      rw [hresult] at hlower
      rw [run_of_ok hparse hresult, run_of_ok hparse' hlower]
      rfl

/-- The three ways to read a text agree.  The only statement of a file is read interactively as
the file is, and a compound statement is never read; the only operand of a file is read on its
own as the value of its statement.  Where one of them stops the others stop with the same error,
and they leave the same diagnostics. -/
theorem entryPoints_agree (digest : Digest) {body file : Tree}
    (hfile : body.IsOnlyStatementIn file) :
    (∀ single, body.IsEnteredAs single →
      lowerSingleInput single = lowerFileInput file ∧
      (body.rule? = some .compoundStmt →
        ∃ error, lowerSingleInput single = .error error ∧ lowerFileInput file = .error error) ∧
      ∀ source parser parser' (queue : Queue digest), parser source .fileInput = .ok file →
        parser' source .singleInput = .ok single →
        parseInteractive source parser' queue = parseProgram source parser queue) ∧
    ∀ (list evaluated : Tree) (place : Span), list.IsEvaluatedAs evaluated →
      list.IsOnlyOperandIn body place →
      (∀ e, lowerEvalInput evaluated = .ok e ↔
        lowerFileInput file = .ok ⟨[.expression e place]⟩) ∧
      (∀ error, lowerEvalInput evaluated = .error error ↔ lowerFileInput file = .error error) ∧
      ∀ source parser parser' (queue : Queue digest), parser source .fileInput = .ok file →
        parser' source .evalInput = .ok evaluated →
        (parseExpression source parser' queue).2 = (parseProgram source parser queue).2 := by
  constructor
  · intro single hsingle
    have hlower := lowerSingleInput_eq_lowerFileInput hsingle hfile
    refine ⟨hlower, ?_, ?_⟩
    · intro hbody
      obtain ⟨error, herror⟩ := exists_refuseCompound_eq body
      have hstops := (hfile.lowerFileInput_compound hbody).trans (herror Program)
      exact ⟨error, hlower.trans hstops, hstops⟩
    · intro source parser parser' queue hparse hparse'
      have hmap : lowerSingleInput single = (lowerFileInput file).map id := by
        rw [hlower]
        cases lowerFileInput file <;> rfl
      have hread := run_eq_map_run hmap hparse hparse' queue
      rwa [Option.map_id, Prod.map_id] at hread
  · intro list evaluated place hevaluated hline
    have hlower := lowerFileInput_eq_map_lowerEvalInput hevaluated hline hfile
    refine ⟨?_, ?_, ?_⟩
    · intro e
      rw [hlower]
      cases lowerEvalInput evaluated <;> simp [Except.map]
    · intro error
      rw [hlower]
      cases lowerEvalInput evaluated <;> simp [Except.map]
    · intro source parser parser' queue hparse hparse'
      exact (congrArg Prod.snd (run_eq_map_run hlower hparse' hparse queue)).symm

/-! ### A call at every entry point -/

/-- The sum `a + f(x)` as a list of tests, laid out. -/
def calledSum : Layout :=
  (Tree.testlist
    [.chain .arithExpr (.identifier "a")
      [("+", .withTrailers (.identifier "f") [.callTrailer (some (.identifier "x"))])]]
    false).layout

/-- A line that holds the sum, with a semicolon at its end. -/
def calledSumLine : Tree :=
  .simpleStmt [.ofChildren .exprStmt [calledSum.root]] true

/-- A file that holds the line, with a line break in front of it. -/
def calledSumFile : Tree :=
  .file [.leaf .newline, .ofChildren .stmt [calledSumLine]]

/-- A parser that finds the sum at every entry point. -/
def calledSumParser : GrammarParser := fun _ entry =>
  match entry with
  | .fileInput => .ok calledSumFile
  | .singleInput => .ok (.singleInput (some calledSumLine))
  | .evalInput => .ok (.evalInput calledSum.root)

/-- The call stops all three where it stands, and they leave the same queue. -/
theorem entryPoints_agree_calledSum :
    calledSumLine.IsOnlyStatementIn calledSumFile ∧
      calledSumLine.IsEnteredAs (.singleInput (some calledSumLine)) ∧
      calledSum.root.IsEvaluatedAs (.evalInput calledSum.root) ∧
      lowerFileInput calledSumFile = refuse .functionCalls ⟨6, 11⟩ ∧
      lowerEvalInput (.evalInput calledSum.root) = refuse .functionCalls ⟨6, 11⟩ ∧
      parseInteractive calledSum.source calledSumParser (.ofConfig .default : Queue .exact) =
        parseProgram calledSum.source calledSumParser (.ofConfig .default) ∧
      (parseExpression calledSum.source calledSumParser (.ofConfig .default : Queue .exact)).2 =
        (parseProgram calledSum.source calledSumParser (.ofConfig .default)).2 := by
  have hfile : calledSumLine.IsOnlyStatementIn calledSumFile :=
    @Tree.IsOnlyStatementIn.intro _ [.newline] [.endmarker] _ _ (by decide) (by decide)
  have hsingle : calledSumLine.IsEnteredAs (.singleInput (some calledSumLine)) := .line rfl
  have hevaluated : calledSum.root.IsEvaluatedAs (.evalInput calledSum.root) :=
    @Tree.IsEvaluatedAs.intro _ [.newline, .endmarker] _ rfl (by decide)
  have hline : calledSum.root.IsOnlyOperandIn calledSumLine (Tree.cover [calledSum.root]) :=
    @Tree.IsOnlyOperandIn.intro _ [] [.leaf (.operator ";"), .leaf .newline] _ _ _ (by decide)
      (by decide)
  have hrefused : lowerFileInput calledSumFile = refuse .functionCalls ⟨6, 11⟩ := by
    decide +kernel
  obtain ⟨hstatement, hoperand⟩ := entryPoints_agree .exact hfile
  obtain ⟨-, -, hentered⟩ := hstatement _ hsingle
  obtain ⟨-, herror, hread⟩ := hoperand _ _ _ hevaluated hline
  exact ⟨hfile, hsingle, hevaluated, hrefused, (herror _).mpr hrefused, hentered _ _ _ _ rfl rfl,
    hread _ _ _ _ rfl rfl⟩

end ScriptLowering
