import ScriptLowering.Proofs.LiteralValues
import ScriptLowering.Text.Words

/-!
# Scripts by their displayed texts

The displayed text of a script puts parentheses around every operator and its operands,
blanks around every operator between operands, and each statement on a line of its own.
As long as no raw text of a literal is empty or holds one of these characters, the text
determines how the script is built, and only the values of its literals and its positions
are not told.  Texts are compared in front of further text, so that equal texts can be cut
off piece by piece: an expression ends where its last parenthesis closes, and a raw text
ends at the next delimiter.

Main results:

- Definition `Expr.Alike` and its siblings: two scripts are built in the same way.
- Theorem `Expr.unary_ne_node`: a prefix operator is never taken for an operand in front of
  an operator.
- Theorem `Expr.display_append_inj`: the text of an expression determines how it is built
  and where it ends.
- Theorem `Program.display_eq_iff`: two programs have one text exactly when they are built
  in the same way.
-/

namespace ScriptLowering

/-! ## Plain texts -/

namespace Text

/-- A character that delimits the parts of a displayed text. -/
def isDelimiter (c : Char) : Bool :=
  c == ' ' || c == '(' || c == ')' || c == '\n'

/-- Characters without a delimiter among them. -/
def NoDelimiters (cs : List Char) : Prop :=
  ∀ c ∈ cs, !isDelimiter c

/-- A text that is not empty and holds no delimiter. -/
def IsPlain (text : String) : Prop :=
  text ≠ "" ∧ NoDelimiters text.toList

/-- A text ends the plain text before it: it is empty or begins with a delimiter. -/
def EndsPlain (rest : List Char) : Prop :=
  ∀ c ∈ rest.head?, isDelimiter c

instance (cs : List Char) : Decidable (NoDelimiters cs) :=
  List.decidableBAll (fun c => !isDelimiter c) cs

instance (text : String) : Decidable (IsPlain text) :=
  inferInstanceAs (Decidable (_ ∧ NoDelimiters text.toList))

theorem endsPlain_cons {c : Char} (h : isDelimiter c) (rest : List Char) :
    EndsPlain (c :: rest) := by
  intro d hd
  obtain rfl := Option.some.inj hd
  exact h

/-- A plain text determines itself and what follows it. -/
theorem plain_append_inj {cs ds r s : List Char} (hcs : NoDelimiters cs) (hds : NoDelimiters ds)
    (hr : EndsPlain r) (hs : EndsPlain s) (h : cs ++ r = ds ++ s) : cs = ds ∧ r = s := by
  have hends : ∀ {rest : List Char}, EndsPlain rest → ∀ c ∈ rest.head?, ¬ !isDelimiter c := by
    intro rest hrest c hc
    simp [hrest c hc]
  exact run_append_inj hcs hds (hends hr) (hends hs) h

/-- A symbol between two blanks determines itself and what follows it. -/
theorem spaced_append_inj {symbol symbol' : String} {r s : List Char}
    (hplain : NoDelimiters symbol.toList) (hplain' : NoDelimiters symbol'.toList)
    (h : ' ' :: (symbol.toList ++ ' ' :: r) = ' ' :: (symbol'.toList ++ ' ' :: s)) :
    symbol = symbol' ∧ r = s := by
  obtain ⟨hsymbol, hrest⟩ := plain_append_inj hplain hplain' (endsPlain_cons rfl _)
    (endsPlain_cons rfl _) (List.cons.inj h).2
  exact ⟨String.toList_inj.mp hsymbol, (List.cons.inj hrest).2⟩

/-- A plain text does not begin with a delimiter. -/
theorem IsPlain.append_ne_cons {text : String} {c : Char} (h : IsPlain text) (hc : isDelimiter c)
    (r s : List Char) : text.toList ++ r ≠ c :: s := by
  intro heq
  cases hchars : text.toList with
  | nil => exact h.1 (String.toList_eq_nil_iff.mp hchars)
  | cons d rest =>
      rw [hchars] at heq
      obtain rfl : d = c := (List.cons.inj heq).1
      have hplain := h.2 d (hchars ▸ List.mem_cons_self)
      rw [hc] at hplain
      contradiction

end Text

/-! ## Symbols -/

/-- The symbol of a connective. -/
def Connective.symbol : Connective → String
  | .binary operator => operator.symbol
  | .logical operator => operator.symbol

/-- The symbol of a prefix operator is a single character that delimits nothing. -/
theorem UnaryOperator.exists_symbol_eq (operator : UnaryOperator) :
    ∃ c, operator.symbol.toList = [c] ∧ !Text.isDelimiter c := by
  cases operator <;> exact ⟨_, rfl, rfl⟩

/-- The symbol of a prefix operator determines the operator and what follows it. -/
theorem UnaryOperator.symbol_append_inj {a b : UnaryOperator} {r s : List Char}
    (h : a.symbol.toList ++ r = b.symbol.toList ++ s) : a = b ∧ r = s := by
  obtain ⟨c, hc, -⟩ := a.exists_symbol_eq
  obtain ⟨d, hd, -⟩ := b.exists_symbol_eq
  rw [hc, hd] at h
  obtain ⟨rfl, hrest⟩ := List.cons.inj h
  exact ⟨symbol_inj (String.toList_inj.mp (hc.trans hd.symm)), hrest⟩

/-- The symbol of a connective has no delimiter in it. -/
theorem Connective.noDelimiters_symbol (connective : Connective) :
    Text.NoDelimiters connective.symbol.toList := by
  cases connective with
  | binary operator => cases operator <;> decide
  | logical operator => cases operator <;> decide

theorem AssignmentOperator.noDelimiters_symbol (operator : AssignmentOperator) :
    Text.NoDelimiters operator.symbol.toList := by
  cases operator <;> decide

/-- No binary operator shares its symbol with a logical operator. -/
theorem BinaryOperator.symbol_ne_symbol (operator : BinaryOperator) (other : LogicalOperator) :
    operator.symbol ≠ other.symbol := by
  cases operator <;> cases other <;> decide

/-- A connective is told by its symbol. -/
theorem Connective.symbol_inj {a b : Connective} (h : a.symbol = b.symbol) : a = b := by
  cases a with
  | binary operator =>
      cases b with
      | binary other => rw [BinaryOperator.symbol_inj h]
      | logical other => exact absurd h (operator.symbol_ne_symbol other)
  | logical operator =>
      cases b with
      | binary other => exact absurd h.symm (other.symbol_ne_symbol operator)
      | logical other => rw [LogicalOperator.symbol_inj h]

/-! ## Scripts built in the same way -/

/-- Two expressions are built in the same way: they have the same operators in the same
places and the same raw texts of literals.  They may differ in values and in positions. -/
inductive Expr.Alike : Expr → Expr → Prop
  | literal {value value' : LiteralValue} {raw : String} {span span' : Span} :
      Alike (.literal value raw span) (.literal value' raw span')
  | unary {operator : UnaryOperator} {argument argument' : Expr} {span span' : Span}
      (hargument : Alike argument argument') :
      Alike (.unary operator argument span) (.unary operator argument' span')
  | binary {operator : BinaryOperator} {left left' right right' : Expr} {span span' : Span}
      (hleft : Alike left left') (hright : Alike right right') :
      Alike (.binary operator left right span) (.binary operator left' right' span')
  | logical {operator : LogicalOperator} {left left' right right' : Expr} {span span' : Span}
      (hleft : Alike left left') (hright : Alike right right') :
      Alike (.logical operator left right span) (.logical operator left' right' span')

/-- Two statements are built in the same way. -/
inductive Statement.Alike : Statement → Statement → Prop
  | expression {value value' : Expr} {span span' : Span} (hvalue : value.Alike value') :
      Alike (.expression value span) (.expression value' span')
  | assignment {operator : AssignmentOperator} {target target' value value' : Expr}
      {span span' : Span} (htarget : target.Alike target') (hvalue : value.Alike value') :
      Alike (.assignment operator target value span) (.assignment operator target' value' span')

/-- Two programs are built in the same way: so are their statements, one by one. -/
def Program.Alike (p q : Program) : Prop :=
  List.Forall₂ Statement.Alike p.body q.body

/-- Joining operands that are alike by one connective gives expressions that are alike. -/
theorem Expr.Alike.node {connective : Connective} {left left' right right' : Expr}
    {span span' : Span} (hleft : left.Alike left') (hright : right.Alike right') :
    (connective.node left right span).Alike (connective.node left' right' span') := by
  cases connective with
  | binary operator => exact .binary hleft hright
  | logical operator => exact .logical hleft hright

/-- Expressions that are built in the same way have one text. -/
theorem Expr.Alike.display_eq {e f : Expr} (h : e.Alike f) : e.display = f.display := by
  induction h with
  | literal => rfl
  | unary _ ih => rw [display, display, ih]
  | binary _ _ ihleft ihright => rw [display, display, ihleft, ihright]
  | logical _ _ ihleft ihright => rw [display, display, ihleft, ihright]

/-- Statements that are alike are displayed in the same way. -/
theorem Statement.Alike.display_eq {a b : Statement} (h : a.Alike b) : a.display = b.display := by
  cases h with
  | expression hvalue => exact hvalue.display_eq
  | assignment htarget hvalue => rw [display, display, htarget.display_eq, hvalue.display_eq]

/-! ## Texts of expressions -/

namespace Expr

/-- The raw texts of all literals of an expression are plain. -/
def HasPlainLiterals (e : Expr) : Prop :=
  ∀ literal ∈ e.literals, Text.IsPlain literal.2

instance (e : Expr) : Decidable e.HasPlainLiterals :=
  inferInstanceAs (Decidable (∀ literal ∈ e.literals, _))

theorem hasPlainLiterals_node {connective : Connective} {left right : Expr} {span : Span} :
    (connective.node left right span).HasPlainLiterals ↔
      left.HasPlainLiterals ∧ right.HasPlainLiterals := by
  rw [HasPlainLiterals, literals_node, List.forall_mem_append]
  rfl

/-- The text of a prefix operation: its symbol and its operand between parentheses. -/
theorem display_unary_append (operator : UnaryOperator) (argument : Expr) (span : Span)
    (r : List Char) :
    (unary operator argument span).display.toList ++ r =
      '(' :: (operator.symbol.toList ++ (argument.display.toList ++ ')' :: r)) := by
  simp [display]

/-- The text of joined operands: parentheses around them and a blank on each side of the
symbol. -/
theorem display_node_append (connective : Connective) (left right : Expr) (span : Span)
    (r : List Char) :
    (connective.node left right span).display.toList ++ r =
      '(' :: (left.display.toList ++
        ' ' :: (connective.symbol.toList ++ ' ' :: (right.display.toList ++ ')' :: r))) := by
  cases connective <;> simp [Connective.node, Connective.symbol, display]

/-- The text of an expression is plain or begins with a parenthesis. -/
theorem isPlain_or_exists_display {e : Expr} (h : e.HasPlainLiterals) :
    Text.IsPlain e.display ∨ ∀ r, ∃ rest, e.display.toList ++ r = '(' :: rest := by
  cases e using inductionOnConnectives with
  | literal value raw span => exact Or.inl (h (value, raw) (List.mem_singleton_self _))
  | unary operator argument span =>
      exact Or.inr fun r => ⟨_, display_unary_append operator argument span r⟩
  | node connective left right span =>
      exact Or.inr fun r => ⟨_, display_node_append connective left right span r⟩

/-- What stands behind a prefix operator and its argument is no blank, so they are never
taken for an operand in front of an operator. -/
theorem unary_ne_node {operator : UnaryOperator} {argument left : Expr}
    (hargument : argument.HasPlainLiterals) (hleft : left.HasPlainLiterals) (r s : List Char) :
    operator.symbol.toList ++ (argument.display.toList ++ ')' :: r) ≠
      left.display.toList ++ ' ' :: s := by
  intro h
  obtain ⟨c, hsymbol, hc⟩ := operator.exists_symbol_eq
  rw [hsymbol] at h
  have hplain : Text.NoDelimiters [c] := List.forall_mem_singleton.mpr hc
  rcases isPlain_or_exists_display hleft with hleft | hleft
  · -- The first delimiter is a parenthesis on one side and a blank on the other.
    rcases isPlain_or_exists_display hargument with hargument | hargument
    · have hjoined : Text.NoDelimiters ([c] ++ argument.display.toList) :=
        List.forall_mem_append.mpr ⟨hplain, hargument.2⟩
      rw [← List.append_assoc] at h
      have hends := Text.plain_append_inj hjoined hleft.2 (Text.endsPlain_cons rfl _)
        (Text.endsPlain_cons rfl _) h
      exact absurd (List.cons.inj hends.2).1 (by decide)
    · obtain ⟨rest, hrest⟩ := hargument (')' :: r)
      rw [hrest] at h
      have hends := Text.plain_append_inj hplain hleft.2 (Text.endsPlain_cons rfl _)
        (Text.endsPlain_cons rfl _) h
      exact absurd (List.cons.inj hends.2).1 (by decide)
  · -- No prefix operator is written as a parenthesis.
    obtain ⟨rest, hrest⟩ := hleft (' ' :: s)
    rw [hrest] at h
    obtain ⟨rfl, -⟩ := List.cons.inj h
    contradiction

/-- The text of an expression determines how it is built and where it ends. -/
theorem display_append_inj {e f : Expr} {r s : List Char} (he : e.HasPlainLiterals)
    (hf : f.HasPlainLiterals) (hr : Text.EndsPlain r) (hs : Text.EndsPlain s)
    (h : e.display.toList ++ r = f.display.toList ++ s) : e.Alike f ∧ r = s := by
  -- Equal texts begin alike, so the other expression is a literal, too, or has an operator
  -- of the same arity.
  induction e using inductionOnConnectives generalizing f r s with
  | literal value raw span =>
      have hraw : Text.IsPlain raw := he (value, raw) (List.mem_singleton_self _)
      cases f using inductionOnConnectives with
      | literal value' raw' span' =>
          have hraw' : Text.IsPlain raw' := hf (value', raw') (List.mem_singleton_self _)
          obtain ⟨hchars, hrest⟩ := Text.plain_append_inj hraw.2 hraw'.2 hr hs h
          obtain rfl := String.toList_inj.mp hchars
          exact ⟨.literal, hrest⟩
      | unary operator argument span' =>
          rw [display_unary_append] at h
          exact absurd h (hraw.append_ne_cons rfl _ _)
      | node connective left right span' =>
          rw [display_node_append] at h
          exact absurd h (hraw.append_ne_cons rfl _ _)
  | unary operator argument span ih =>
      rw [display_unary_append] at h
      have hargument : argument.HasPlainLiterals := he
      cases f using inductionOnConnectives with
      | literal value' raw' span' =>
          have hraw' : Text.IsPlain raw' := hf (value', raw') (List.mem_singleton_self _)
          exact absurd h.symm (hraw'.append_ne_cons rfl _ _)
      | unary operator' argument' span' =>
          rw [display_unary_append] at h
          have hargument' : argument'.HasPlainLiterals := hf
          obtain ⟨rfl, harguments⟩ := UnaryOperator.symbol_append_inj (List.cons.inj h).2
          obtain ⟨halike, hrest⟩ := ih hargument hargument' (Text.endsPlain_cons rfl _)
            (Text.endsPlain_cons rfl _) harguments
          exact ⟨.unary halike, (List.cons.inj hrest).2⟩
      | node connective left right span' =>
          rw [display_node_append] at h
          obtain ⟨hleft, -⟩ := hasPlainLiterals_node.mp hf
          exact absurd (List.cons.inj h).2 (unary_ne_node hargument hleft _ _)
  | node connective left right span ihleft ihright =>
      rw [display_node_append] at h
      obtain ⟨hleft, hright⟩ := hasPlainLiterals_node.mp he
      cases f using inductionOnConnectives with
      | literal value' raw' span' =>
          have hraw' : Text.IsPlain raw' := hf (value', raw') (List.mem_singleton_self _)
          exact absurd h.symm (hraw'.append_ne_cons rfl _ _)
      | unary operator' argument' span' =>
          rw [display_unary_append] at h
          have hargument : argument'.HasPlainLiterals := hf
          exact absurd (List.cons.inj h).2.symm (unary_ne_node hargument hleft _ _)
      | node connective' left' right' span' =>
          rw [display_node_append] at h
          obtain ⟨hleft', hright'⟩ := hasPlainLiterals_node.mp hf
          obtain ⟨hlefts, hsymbols⟩ := ihleft hleft hleft' (Text.endsPlain_cons rfl _)
            (Text.endsPlain_cons rfl _) (List.cons.inj h).2
          obtain ⟨hsymbol, hoperands⟩ := Text.spaced_append_inj connective.noDelimiters_symbol
            connective'.noDelimiters_symbol hsymbols
          obtain rfl := Connective.symbol_inj hsymbol
          obtain ⟨hrights, hrest⟩ := ihright hright hright' (Text.endsPlain_cons rfl _)
            (Text.endsPlain_cons rfl _) hoperands
          exact ⟨hlefts.node hrights, (List.cons.inj hrest).2⟩

end Expr

/-! ## Texts of statements -/

/-- A text ends the line before it: it is empty or begins with a line end. -/
def Text.EndsLine (rest : List Char) : Prop :=
  ∀ c ∈ rest.head?, c = '\n'

theorem Text.EndsLine.endsPlain {rest : List Char} (h : Text.EndsLine rest) :
    Text.EndsPlain rest := by
  intro c hc
  obtain rfl := h c hc
  rfl

namespace Statement

/-- The raw texts of all literals of a statement are plain. -/
def HasPlainLiterals : Statement → Prop
  | .expression value _ => value.HasPlainLiterals
  | .assignment _ target value _ => target.HasPlainLiterals ∧ value.HasPlainLiterals

instance (statement : Statement) : Decidable statement.HasPlainLiterals :=
  match statement with
  | .expression value _ => inferInstanceAs (Decidable value.HasPlainLiterals)
  | .assignment _ target value _ =>
    inferInstanceAs (Decidable (target.HasPlainLiterals ∧ value.HasPlainLiterals))

/-- The text of an assignment: its sides with a blank on each side of the symbol. -/
theorem display_assignment_append (operator : AssignmentOperator) (target value : Expr)
    (span : Span) (r : List Char) :
    (assignment operator target value span).display.toList ++ r =
      target.display.toList ++
        ' ' :: (operator.symbol.toList ++ ' ' :: (value.display.toList ++ r)) := by
  simp [display]

/-- No statement has an empty text. -/
theorem toList_display_ne_nil {statement : Statement} (h : statement.HasPlainLiterals) :
    statement.display.toList ≠ [] := by
  cases statement with
  | expression value span =>
      change value.display.toList ≠ []
      rcases value.isPlain_or_exists_display h with hplain | hparenthesis
      · exact fun hnil => hplain.1 (String.toList_eq_nil_iff.mp hnil)
      · obtain ⟨rest, hrest⟩ := hparenthesis []
        rw [List.append_nil] at hrest
        rw [hrest]
        exact List.cons_ne_nil _ _
  | assignment operator target value span =>
      rw [← List.append_nil (display _).toList, display_assignment_append]
      exact List.append_ne_nil_of_right_ne_nil _ (List.cons_ne_nil _ _)

/-- The text of a statement determines how it is built and where it ends. -/
theorem display_append_inj {a b : Statement} {r s : List Char} (ha : a.HasPlainLiterals)
    (hb : b.HasPlainLiterals) (hr : Text.EndsLine r) (hs : Text.EndsLine s)
    (h : a.display.toList ++ r = b.display.toList ++ s) : a.Alike b ∧ r = s := by
  -- An assignment goes on with a blank where an expression ends its line.
  have hblank : ∀ {rest later : List Char}, Text.EndsLine rest → rest ≠ ' ' :: later := by
    rintro rest later hrest rfl
    exact absurd (hrest ' ' rfl) (by decide)
  cases a with
  | expression value span =>
      cases b with
      | expression value' span' =>
          obtain ⟨hvalues, hrest⟩ := Expr.display_append_inj ha hb hr.endsPlain hs.endsPlain h
          exact ⟨.expression hvalues, hrest⟩
      | assignment operator target value' span' =>
          rw [display_assignment_append] at h
          have hends := Expr.display_append_inj ha hb.1 hr.endsPlain (Text.endsPlain_cons rfl _) h
          exact absurd hends.2 (hblank hr)
  | assignment operator target value span =>
      rw [display_assignment_append] at h
      cases b with
      | expression value' span' =>
          have hends := Expr.display_append_inj ha.1 hb (Text.endsPlain_cons rfl _) hs.endsPlain h
          exact absurd hends.2.symm (hblank hs)
      | assignment operator' target' value' span' =>
          rw [display_assignment_append] at h
          obtain ⟨htargets, hsymbols⟩ := Expr.display_append_inj ha.1 hb.1
            (Text.endsPlain_cons rfl _) (Text.endsPlain_cons rfl _) h
          obtain ⟨hsymbol, hoperands⟩ := Text.spaced_append_inj operator.noDelimiters_symbol
            operator'.noDelimiters_symbol hsymbols
          obtain rfl := AssignmentOperator.symbol_inj hsymbol
          obtain ⟨hvalues, hrest⟩ := Expr.display_append_inj ha.2 hb.2 hr.endsPlain hs.endsPlain
            hoperands
          exact ⟨.assignment htargets hvalues, hrest⟩

/-- The texts of statements on lines of their own, each behind a line end. -/
def laterLines (statements : List Statement) : List Char :=
  statements.flatMap fun statement => '\n' :: statement.display.toList

theorem endsLine_laterLines (statements : List Statement) :
    Text.EndsLine (laterLines statements) := by
  cases statements with
  | nil => nofun
  | cons statement rest =>
      intro c hc
      exact (Option.some.inj hc).symm

/-- Lines determine how their statements are built. -/
theorem forall₂_alike_of_laterLines_eq {as bs : List Statement}
    (has : ∀ a ∈ as, a.HasPlainLiterals) (hbs : ∀ b ∈ bs, b.HasPlainLiterals)
    (h : laterLines as = laterLines bs) : List.Forall₂ Alike as bs := by
  induction as generalizing bs with
  | nil =>
      cases bs with
      | nil => exact .nil
      | cons b bs => exact absurd h (List.cons_ne_nil _ _).symm
  | cons a as ih =>
      cases bs with
      | nil => exact absurd h (List.cons_ne_nil _ _)
      | cons b bs =>
          obtain ⟨ha, has⟩ := List.forall_mem_cons.mp has
          obtain ⟨hb, hbs⟩ := List.forall_mem_cons.mp hbs
          rw [laterLines, laterLines, List.flatMap_cons, List.flatMap_cons, List.cons_append,
            List.cons_append] at h
          obtain ⟨halike, hrest⟩ := display_append_inj ha hb (endsLine_laterLines as)
            (endsLine_laterLines bs) (List.cons.inj h).2
          exact .cons halike (ih has hbs hrest)

end Statement

/-! ## Texts of programs -/

namespace Program

/-- The raw texts of all literals of a program are plain. -/
def HasPlainLiterals (program : Program) : Prop :=
  ∀ statement ∈ program.body, statement.HasPlainLiterals

instance (program : Program) : Decidable program.HasPlainLiterals :=
  inferInstanceAs (Decidable (∀ statement ∈ program.body, _))

/-- The text of a program is that of its first statement and of the later lines. -/
theorem toList_display_cons (statement : Statement) (rest : List Statement) :
    (Program.mk (statement :: rest)).display.toList =
      statement.display.toList ++ Statement.laterLines rest := by
  induction rest generalizing statement with
  | nil => simp [display, Statement.laterLines]
  | cons next rest ih =>
      have hlines : (Program.mk (statement :: next :: rest)).display =
          statement.display ++ "\n" ++ (Program.mk (next :: rest)).display :=
        String.intercalate_cons_cons
      rw [hlines, String.toList_append, String.toList_append, ih, List.append_assoc]
      rfl

/-- Programs that are built in the same way have one text. -/
theorem Alike.display_eq {p q : Program} (h : p.Alike q) : p.display = q.display := by
  have hlines : ∀ {as bs : List Statement}, List.Forall₂ Statement.Alike as bs →
      as.map Statement.display = bs.map Statement.display := by
    intro as bs halike
    induction halike with
    | nil => rfl
    | cons hfirst _ ih => rw [List.map_cons, List.map_cons, hfirst.display_eq, ih]
  rw [display, display, hlines h]

/-- Two programs whose raw texts are not empty and hold no blank, no parenthesis and no
line end have one text exactly when they are built in the same way: they have as many
statements, and those are of one form, with the same operators in the same places and the
same raw texts.  Only values and positions may differ. -/
theorem display_eq_iff {p q : Program} (hp : p.HasPlainLiterals) (hq : q.HasPlainLiterals) :
    p.display = q.display ↔ p.Alike q := by
  refine ⟨fun h => ?_, Alike.display_eq⟩
  have hchars : p.display.toList = q.display.toList := by rw [h]
  obtain ⟨as⟩ := p
  obtain ⟨bs⟩ := q
  cases as with
  | nil =>
      cases bs with
      | nil => exact .nil
      | cons b bs =>
          rw [toList_display_cons] at hchars
          have hempty := List.append_eq_nil_iff.mp hchars.symm
          exact absurd hempty.1 (Statement.toList_display_ne_nil (hq b (by simp)))
  | cons a as =>
      obtain ⟨ha, has⟩ := List.forall_mem_cons.mp hp
      rw [toList_display_cons] at hchars
      cases bs with
      | nil =>
          have hempty := List.append_eq_nil_iff.mp hchars
          exact absurd hempty.1 (Statement.toList_display_ne_nil ha)
      | cons b bs =>
          obtain ⟨hb, hbs⟩ := List.forall_mem_cons.mp hq
          rw [toList_display_cons] at hchars
          obtain ⟨halike, hrest⟩ := Statement.display_append_inj ha hb
            (Statement.endsLine_laterLines as) (Statement.endsLine_laterLines bs) hchars
          exact .cons halike (Statement.forall₂_alike_of_laterLines_eq has hbs hrest)

/-- A program of literals that look like operators, each with the value and at the place
that is given. -/
def misleadingProgram (value : LiteralValue) (span : Span) : Program :=
  ⟨[ .assignment .subtractAssign (.literal value "=" span)
      (.unary .minus (.literal value "-" span) span) span,
    .expression (.binary .subtract (.unary .not (.literal value "=" span) span)
      (.literal value "-" span) span) span]⟩

/-- The text tells what is an operator and what is a literal, and nothing else. -/
theorem display_eq_iff_misleadingProgram :
    (misleadingProgram (.name "x") ⟨0, 1⟩).HasPlainLiterals ∧
      (misleadingProgram (.integer 7) ⟨4, 9⟩).HasPlainLiterals ∧
      (misleadingProgram (.name "x") ⟨0, 1⟩).display = "= -= (--)\n((!=) - -)" ∧
      (misleadingProgram (.integer 7) ⟨4, 9⟩).display = "= -= (--)\n((!=) - -)" ∧
      (misleadingProgram (.name "x") ⟨0, 1⟩).Alike (misleadingProgram (.integer 7) ⟨4, 9⟩) := by
  have hplain : (misleadingProgram (.name "x") ⟨0, 1⟩).HasPlainLiterals := by decide
  have hplain' : (misleadingProgram (.integer 7) ⟨4, 9⟩).HasPlainLiterals := by decide
  have hdisplay : (misleadingProgram (.name "x") ⟨0, 1⟩).display = "= -= (--)\n((!=) - -)" := by
    decide
  have hdisplay' : (misleadingProgram (.integer 7) ⟨4, 9⟩).display = "= -= (--)\n((!=) - -)" := by
    decide
  exact ⟨hplain, hplain', hdisplay, hdisplay',
    (display_eq_iff hplain hplain').mp (hdisplay.trans hdisplay'.symm)⟩

-- A raw text with parentheses can look like an operator between operands.
example :
    (Program.mk [.expression (.literal (.name "x") "(a - b)" ⟨0, 7⟩) ⟨0, 7⟩]).display =
      (Program.mk [.expression (.binary .subtract (.literal (.name "a") "a" ⟨0, 1⟩)
        (.literal (.name "b") "b" ⟨4, 5⟩) ⟨0, 5⟩) ⟨0, 5⟩]).display := by
  decide

end Program

end ScriptLowering
