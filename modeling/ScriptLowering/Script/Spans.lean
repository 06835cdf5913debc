import ScriptLowering.Script.Program

/-!
# Moving a script to other places

Mapping a function over all spans of an expression, a statement or a program
moves it and leaves everything else as it is.
-/

namespace ScriptLowering

/-- Maps the spans of an expression and of everything in it. -/
def Expr.mapSpans (f : Span → Span) : Expr → Expr
  | .literal value raw span => .literal value raw (f span)
  | .unary operator argument span => .unary operator (argument.mapSpans f) (f span)
  | .binary operator left right span =>
    .binary operator (left.mapSpans f) (right.mapSpans f) (f span)
  | .logical operator left right span =>
    .logical operator (left.mapSpans f) (right.mapSpans f) (f span)

/-- Maps the spans of a statement and of everything in it. -/
def Statement.mapSpans (f : Span → Span) : Statement → Statement
  | .expression value span => .expression (value.mapSpans f) (f span)
  | .assignment operator target value span =>
    .assignment operator (target.mapSpans f) (value.mapSpans f) (f span)

/-- Maps the spans of everything in a program. -/
def Program.mapSpans (f : Span → Span) (program : Program) : Program :=
  ⟨program.body.map (Statement.mapSpans f)⟩

/-- An expression without positions. -/
def Expr.eraseSpans (e : Expr) : Expr :=
  e.mapSpans fun _ => .unplaced

/-- A statement without positions. -/
def Statement.eraseSpans (statement : Statement) : Statement :=
  statement.mapSpans fun _ => .unplaced

/-- A program without positions. -/
def Program.eraseSpans (program : Program) : Program :=
  program.mapSpans fun _ => .unplaced

/-- The span of an expression that was moved is its span, mapped. -/
@[simp]
theorem Expr.span_mapSpans (f : Span → Span) (e : Expr) : (e.mapSpans f).span = f e.span := by
  cases e <;> rfl

@[simp]
theorem Statement.span_mapSpans (f : Span → Span) (statement : Statement) :
    (statement.mapSpans f).span = f statement.span := by
  cases statement <;> rfl

/-! ## Moving twice -/

/-- An expression that is moved twice is moved by the composed map. -/
@[simp]
theorem Expr.mapSpans_mapSpans (f g : Span → Span) (e : Expr) :
    (e.mapSpans g).mapSpans f = e.mapSpans (f ∘ g) := by
  induction e with
  | literal value raw span => rfl
  | unary operator argument span ih => simp [mapSpans, ih]
  | binary operator left right span ihleft ihright => simp [mapSpans, ihleft, ihright]
  | logical operator left right span ihleft ihright => simp [mapSpans, ihleft, ihright]

@[simp]
theorem Statement.mapSpans_mapSpans (f g : Span → Span) (statement : Statement) :
    (statement.mapSpans g).mapSpans f = statement.mapSpans (f ∘ g) := by
  cases statement with
  | expression value span => simp [mapSpans]
  | assignment operator target value span => simp [mapSpans]

theorem Statement.mapSpans_comp (f g : Span → Span) :
    mapSpans f ∘ mapSpans g = mapSpans (f ∘ g) :=
  funext (mapSpans_mapSpans f g)

end ScriptLowering
