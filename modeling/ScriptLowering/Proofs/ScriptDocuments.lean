import ScriptLowering.Proofs.DocumentTexts
import ScriptLowering.Script.Estree

/-!
# What the document of a script keeps

A script is handed on as the text of its document.  The text determines the
script, except that a string literal cannot be told from a name with the same
text: the document of a literal holds its value and not its kind.  Everything
else is kept, the spans and the raw texts included.

Main results:

- Definition `Program.stringsAsNames`: a program whose string literals are taken
  for names.
- Theorem `Expr.toJson_eq_iff` and its siblings: two scripts have one document
  exactly when they are equal after that.
- Theorem `text_toJson_eq_iff`: the same for the texts of the documents.
-/

namespace ScriptLowering

/-! ## Strings taken for names -/

/-- A value of a literal with a string taken for a name. -/
def LiteralValue.stringAsName : LiteralValue → LiteralValue
  | .string text => .name text
  | value => value

/-- An expression with its string literals taken for names. -/
def Expr.stringsAsNames : Expr → Expr
  | .literal value raw span => .literal value.stringAsName raw span
  | .unary operator argument span => .unary operator argument.stringsAsNames span
  | .binary operator left right span =>
    .binary operator left.stringsAsNames right.stringsAsNames span
  | .logical operator left right span =>
    .logical operator left.stringsAsNames right.stringsAsNames span

/-- A statement with its string literals taken for names. -/
def Statement.stringsAsNames : Statement → Statement
  | .expression value span => .expression value.stringsAsNames span
  | .assignment operator target value span =>
    .assignment operator target.stringsAsNames value.stringsAsNames span

/-- A program with its string literals taken for names. -/
def Program.stringsAsNames (program : Program) : Program :=
  ⟨program.body.map Statement.stringsAsNames⟩

/-! ## Documents of scripts -/

/-- The members of a span tell the span. -/
theorem Span.members_inj {a b : Span} : a.members = b.members ↔ a = b := by
  cases a
  cases b
  simp only [members, List.cons.injEq, Prod.mk.injEq, Json.integer.injEq, Int.ofNat_inj,
    UInt32.toNat_inj, true_and, and_true, mk.injEq]

/-- The document of a value tells everything but a string from a name. -/
theorem LiteralValue.toJson_eq_iff {a b : LiteralValue} :
    a.toJson = b.toJson ↔ a.stringAsName = b.stringAsName := by
  cases a <;> cases b <;> simp [toJson, stringAsName, Int64.toInt_inj]

/-- Two expressions have one document exactly when they are equal with their
strings taken for names. -/
theorem Expr.toJson_eq_iff {e f : Expr} :
    e.toJson = f.toJson ↔ e.stringsAsNames = f.stringsAsNames := by
  induction e generalizing f with
  | literal value raw span =>
      cases f with
      | literal =>
          simp [toJson, stringsAsNames, Span.members_inj, LiteralValue.toJson_eq_iff]
      | _ => simp [toJson, stringsAsNames]
  | unary operator argument span ih =>
      cases f with
      | unary other =>
          have hsymbol : operator.symbol = other.symbol ↔ operator = other :=
            ⟨UnaryOperator.symbol_inj, congrArg _⟩
          simp [toJson, stringsAsNames, Span.members_inj, hsymbol, ih]
      | _ => simp [toJson, stringsAsNames]
  | binary operator left right span ihleft ihright =>
      cases f with
      | binary other =>
          have hsymbol : operator.symbol = other.symbol ↔ operator = other :=
            ⟨BinaryOperator.symbol_inj, congrArg _⟩
          simp [toJson, stringsAsNames, Span.members_inj, hsymbol, ihleft, ihright]
      | _ => simp [toJson, stringsAsNames]
  | logical operator left right span ihleft ihright =>
      cases f with
      | logical other =>
          have hsymbol : operator.symbol = other.symbol ↔ operator = other :=
            ⟨LogicalOperator.symbol_inj, congrArg _⟩
          simp [toJson, stringsAsNames, Span.members_inj, hsymbol, ihleft, ihright]
      | _ => simp [toJson, stringsAsNames]

/-- The document of a statement tells everything but strings from names. -/
theorem Statement.toJson_eq_iff {a b : Statement} :
    a.toJson = b.toJson ↔ a.stringsAsNames = b.stringsAsNames := by
  cases a with
  | expression value span =>
      cases b with
      | expression => simp [toJson, stringsAsNames, Span.members_inj, Expr.toJson_eq_iff]
      | assignment => simp [toJson, stringsAsNames]
  | assignment operator target value span =>
      cases b with
      | expression => simp [toJson, stringsAsNames]
      | assignment other =>
          have hsymbol : operator.symbol = other.symbol ↔ operator = other :=
            ⟨AssignmentOperator.symbol_inj, congrArg _⟩
          simp [toJson, stringsAsNames, Span.members_inj, hsymbol, Expr.toJson_eq_iff]

/-- Maps that tell the same elements apart tell the same lists apart. -/
theorem map_eq_map_iff_of_eq_iff {α β γ : Type} {f : α → β} {g : α → γ}
    (h : ∀ a b, f a = f b ↔ g a = g b) (as bs : List α) :
    as.map f = bs.map f ↔ as.map g = bs.map g := by
  induction as generalizing bs with
  | nil => cases bs <;> simp
  | cons a as ih =>
      cases bs with
      | nil => simp
      | cons b bs => simp [h, ih]

/-- The document of a program tells everything but strings from names. -/
theorem Program.toJson_eq_iff {p q : Program} :
    p.toJson = q.toJson ↔ p.stringsAsNames = q.stringsAsNames := by
  have hbodies := map_eq_map_iff_of_eq_iff (fun a b => Statement.toJson_eq_iff (a := a) (b := b))
    p.body q.body
  simp [toJson, stringsAsNames, hbodies]

/-- The text of the document of a script loses nothing but which literals are
strings and which are names: two programs, two statements or two expressions have
one text exactly when they are equal with their strings taken for names. -/
theorem text_toJson_eq_iff :
    (∀ p q : Program, p.toJson.text = q.toJson.text ↔ p.stringsAsNames = q.stringsAsNames) ∧
      (∀ a b : Statement,
        a.toJson.text = b.toJson.text ↔ a.stringsAsNames = b.stringsAsNames) ∧
      ∀ e f : Expr, e.toJson.text = f.toJson.text ↔ e.stringsAsNames = f.stringsAsNames := by
  refine ⟨?_, ?_, ?_⟩
  · intro p q
    rw [Json.text_inj, Program.toJson_eq_iff]
  · intro a b
    rw [Json.text_inj, Statement.toJson_eq_iff]
  · intro e f
    rw [Json.text_inj, Expr.toJson_eq_iff]

end ScriptLowering
