import ScriptLowering.Grammar.Spans
import ScriptLowering.Proofs.NormalForm
import ScriptLowering.Proofs.TokenConservation

/-!
# Unique reading of normal forms

The lexemes of an expression in normal form determine the expression, positions
apart.  The proof climbs the binding levels.  An expression of one level is a
row of operands of the level below: after prefix operators, or between
connectives that group to the left.  Where one operand ends, nothing follows it
or a connective that binds looser than the operand, so the row can be read off
operand by operand.

Main results:

- Theorem `Expr.exists_spine`: an expression is its leftmost operand joined with
  operands of the level below.
- Theorem `uniqueAt`: at every level, what an expression is and where it ends
  are determined by the lexemes from its first on.
- Theorem `Expr.eraseSpans_eq_of_lexemes_eq`: two normal forms with the same
  lexemes are the same up to spans.
- Theorem `eraseSpans_eq_of_marks_eq`: trees with the same tokens are lowered
  to the same expression up to spans.
-/

namespace ScriptLowering

/-! ## Spellings and levels of operators -/

/-- No binary operator is spelled as a logical operator. -/
theorem BinaryOperator.symbol_ne_spelling (a : BinaryOperator) (b : LogicalOperator) :
    a.symbol ≠ b.spelling := by
  cases a <;> cases b <;> decide

/-- The spelling of a connective determines it. -/
theorem Connective.spelling_inj {a b : Connective} (h : a.spelling = b.spelling) : a = b := by
  cases a with
  | binary a =>
      cases b with
      | binary b => rw [BinaryOperator.symbol_inj h]
      | logical b => exact absurd h (a.symbol_ne_spelling b)
  | logical a =>
      cases b with
      | binary b => exact absurd h.symm (b.symbol_ne_spelling a)
      | logical b => cases a <;> cases b <;> simp [spelling, LogicalOperator.spelling] at h ⊢

/-- The spelling of a prefix operator determines it. -/
theorem UnaryOperator.spelling_inj {a b : UnaryOperator} (h : a.spelling = b.spelling) :
    a = b := by
  cases a <;> cases b <;> simp [spelling] at h ⊢

/-- No level has both prefix operators and connectives. -/
theorem UnaryOperator.level_ne_or_level_ne (level : Nat) :
    (∀ operator : UnaryOperator, operator.level ≠ level) ∨
      ∀ connective : Connective, connective.level ≠ level := by
  by_cases hprefix : ∃ operator : UnaryOperator, operator.level = level
  · right
    obtain ⟨operator, rfl⟩ := hprefix
    intro connective
    cases connective with
    | binary symbol => cases operator <;> cases symbol <;> decide
    | logical symbol => cases operator <;> cases symbol <;> decide
  · left
    intro operator hlevel
    exact hprefix ⟨operator, hlevel⟩

/-! ## The left spine of an expression -/

/-- Operands of a level, each after a connective of the next level. -/
def IsRow (level : Nat) (steps : List (Connective × Expr)) : Prop :=
  ∀ step ∈ steps, step.1.level = level + 1 ∧ step.2.IsNormal ∧ step.2.level ≤ level

/-- An expression of a level without prefix operators is its leftmost operand
joined with further operands, all of the level below. -/
theorem Expr.exists_spine {level : Nat} {e : Expr}
    (hlevels : ∀ operator : UnaryOperator, operator.level ≠ level + 1)
    (hnormal : e.IsNormal) (hlevel : e.level ≤ level + 1) :
    ∃ (seed : Expr) (steps : List (Connective × Expr)), seed.IsNormal ∧ seed.level ≤ level ∧
      IsRow level steps ∧ (seed.joined steps).eraseSpans = e.eraseSpans := by
  induction e using inductionOnConnectives with
  | literal value raw span => exact ⟨_, [], hnormal, Nat.zero_le _, by simp [IsRow], rfl⟩
  | unary operator argument span ih =>
      have hne := hlevels operator
      have hle : operator.level ≤ level + 1 := hlevel
      exact ⟨_, [], hnormal, show operator.level ≤ level by omega, by simp [IsRow], rfl⟩
  | node connective left right span ihleft _ =>
      rw [level_node] at hlevel
      by_cases hown : connective.level = level + 1
      · obtain ⟨hleft, hright, hnormalLeft, hnormalRight⟩ := isNormal_node.mp hnormal
        have hbound := connective.leftLevel_le_level
        obtain ⟨seed, steps, hseed, hseedLevel, hsteps, herase⟩ := ihleft hnormalLeft (by omega)
        refine ⟨seed, steps ++ [(connective, right)], hseed, hseedLevel, ?_, by simp [herase]⟩
        intro step hstep
        rcases List.mem_append.mp hstep with hstep | hstep
        · exact hsteps step hstep
        · obtain rfl := List.mem_singleton.mp hstep
          exact ⟨hown, hnormalRight, show right.level ≤ level by omega⟩
      · exact ⟨_, [], hnormal, by rw [level_node]; omega, by simp [IsRow], rfl⟩

/-! ## Where an operand ends -/

/-- What may stand after an operand of a level: nothing, or a connective that
binds looser. -/
def Follows (level : Nat) : List Lexeme → Prop
  | [] => True
  | lexeme :: _ =>
    ∃ connective : Connective, lexeme = .operator connective.spelling ∧ level < connective.level

/-- What may stand after an operand may stand after a tighter one. -/
theorem Follows.mono {level level' : Nat} {rest : List Lexeme} (h : Follows level' rest)
    (hle : level ≤ level') : Follows level rest := by
  cases rest with
  | nil => trivial
  | cons lexeme rest =>
      obtain ⟨connective, hlexeme, hlevel⟩ := h
      exact ⟨connective, hlexeme, Nat.lt_of_le_of_lt hle hlevel⟩

/-- The rest of a row stands after each of its operands. -/
theorem IsRow.follows {level : Nat} {steps : List (Connective × Expr)} {rest : List Lexeme}
    (hrow : IsRow level steps) (hrest : Follows (level + 1) rest) :
    Follows level (Expr.lexemesOfSteps steps ++ rest) := by
  cases steps with
  | nil => exact hrest.mono (Nat.le_succ level)
  | cons step steps =>
      have hlevel := (hrow step (by simp)).1
      exact ⟨step.1, rfl, by omega⟩

/-- A connective does not stand after an operand of its own level. -/
theorem not_follows_own (connective : Connective) (rest : List Lexeme) :
    ¬ Follows connective.level (.operator connective.spelling :: rest) := by
  rintro ⟨other, hlexeme, hlevel⟩
  rw [Connective.spelling_inj (Lexeme.operator.inj hlexeme)] at hlevel
  exact absurd hlevel (Nat.lt_irrefl _)

/-- Reading is unique at a level: the lexemes from the first of an expression on
determine the expression up to spans, and where it ends. -/
def UniqueAt (level : Nat) : Prop :=
  ∀ (a b : Expr) (rest rest' : List Lexeme), a.IsNormal → b.IsNormal → a.level ≤ level →
    b.level ≤ level → Follows level rest → Follows level rest' →
    a.lexemes ++ rest = b.lexemes ++ rest' → a.eraseSpans = b.eraseSpans ∧ rest = rest'

/-! ## Climbing the levels -/

/-- Only literals bind at level zero. -/
theorem Expr.exists_literal_of_level {e : Expr} (h : e.level ≤ 0) :
    ∃ value raw span, e = .literal value raw span := by
  cases e using inductionOnConnectives with
  | literal value raw span => exact ⟨value, raw, span, rfl⟩
  | unary operator argument span =>
      have hlevel : operator.level ≤ 0 := h
      cases operator <;> exact absurd hlevel (by decide)
  | node connective left right span =>
      have hpos := connective.level_pos
      rw [level_node] at h
      omega

/-- A literal is told by its only lexeme. -/
theorem uniqueAt_zero : UniqueAt 0 := by
  intro a b rest rest' _ _ ha hb _ _ h
  obtain ⟨value, raw, span, rfl⟩ := Expr.exists_literal_of_level ha
  obtain ⟨value', raw', span', rfl⟩ := Expr.exists_literal_of_level hb
  simp only [Expr.lexemes, List.singleton_append, List.cons.injEq, Lexeme.operand.injEq] at h
  obtain ⟨⟨rfl, rfl⟩, rfl⟩ := h
  exact ⟨rfl, rfl⟩

/-- Two rows of operands with the same lexemes are the same row. -/
theorem eraseSpans_joined_eq {level : Nat} (hunique : UniqueAt level)
    {steps steps' : List (Connective × Expr)} {rest rest' : List Lexeme}
    (hsteps : IsRow level steps) (hsteps' : IsRow level steps')
    (hrest : Follows (level + 1) rest) (hrest' : Follows (level + 1) rest')
    (h : Expr.lexemesOfSteps steps ++ rest = Expr.lexemesOfSteps steps' ++ rest')
    {a b : Expr} (hseed : a.eraseSpans = b.eraseSpans) :
    (a.joined steps).eraseSpans = (b.joined steps').eraseSpans ∧ rest = rest' := by
  induction steps generalizing a b steps' with
  | nil =>
      cases steps' with
      | nil => exact ⟨hseed, h⟩
      | cons step' steps' =>
          -- The row on the right goes on with a connective of its own level.
          have hown := (hsteps' step' (by simp)).1
          rw [Expr.lexemesOfSteps_nil, List.nil_append] at h
          rw [h, ← hown] at hrest
          exact absurd hrest (not_follows_own _ _)
  | cons step steps ih =>
      cases steps' with
      | nil =>
          have hown := (hsteps step (by simp)).1
          rw [Expr.lexemesOfSteps_nil, List.nil_append] at h
          rw [← h, ← hown] at hrest'
          exact absurd hrest' (not_follows_own _ _)
      | cons step' steps' =>
          obtain ⟨⟨hlevel, hnormal, hbound⟩, hlater⟩ := List.forall_mem_cons.mp hsteps
          obtain ⟨⟨hlevel', hnormal', hbound'⟩, hlater'⟩ := List.forall_mem_cons.mp hsteps'
          simp only [Expr.lexemesOfSteps_cons, List.cons_append, List.append_assoc,
            List.cons.injEq, Lexeme.operator.injEq] at h
          obtain ⟨hright, hlexemes⟩ := hunique _ _ _ _ hnormal hnormal' hbound hbound'
            (IsRow.follows hlater hrest) (IsRow.follows hlater' hrest') h.2
          refine ih hlater hlater' hlexemes ?_
          rw [Expr.eraseSpans_apply, Expr.eraseSpans_apply, hseed, hright,
            Connective.spelling_inj h.1]

/-- A level without prefix operators reads its rows operand by operand. -/
theorem uniqueAt_succ_of_connectives {level : Nat}
    (hlevels : ∀ operator : UnaryOperator, operator.level ≠ level + 1)
    (hunique : UniqueAt level) : UniqueAt (level + 1) := by
  intro a b rest rest' hnormal hnormal' ha hb hrest hrest' h
  obtain ⟨seed, steps, hseed, hbound, hsteps, herase⟩ := Expr.exists_spine hlevels hnormal ha
  obtain ⟨seed', steps', hseed', hbound', hsteps', herase'⟩ :=
    Expr.exists_spine hlevels hnormal' hb
  rw [← Expr.lexemes_eraseSpans a, ← herase, ← Expr.lexemes_eraseSpans b, ← herase',
    Expr.lexemes_eraseSpans, Expr.lexemes_eraseSpans, Expr.lexemes_joined, Expr.lexemes_joined,
    List.append_assoc, List.append_assoc] at h
  rw [← herase, ← herase']
  obtain ⟨heq, hlexemes⟩ := hunique _ _ _ _ hseed hseed' hbound hbound' (hsteps.follows hrest)
    (hsteps'.follows hrest') h
  exact eraseSpans_joined_eq hunique hsteps hsteps' hrest hrest' hlexemes heq

/-- A prefix operator that an expression starts with binds no looser than the
expression. -/
theorem Expr.level_le_of_lexemes_eq {e : Expr} (hnormal : e.IsNormal) {operator : UnaryOperator}
    {rest tail : List Lexeme} (h : e.lexemes ++ rest = .operator operator.spelling :: tail) :
    operator.level ≤ e.level := by
  induction e using inductionOnConnectives generalizing rest with
  | literal value raw span => simp [lexemes] at h
  | unary symbol argument span _ =>
      simp only [lexemes, List.cons_append, List.cons.injEq, Lexeme.operator.injEq] at h
      rw [UnaryOperator.spelling_inj h.1.symm]
      exact Nat.le_refl _
  | node connective left right span ihleft _ =>
      obtain ⟨hleft, -, hnormalLeft, -⟩ := isNormal_node.mp hnormal
      rw [lexemes_node, List.append_assoc] at h
      have hbound := connective.leftLevel_le_level
      have hstart := ihleft hnormalLeft h
      rw [level_node]
      omega

/-- At a level without connectives, what does not bind tighter is a prefix
operator of the level. -/
theorem Expr.level_le_or_exists_unary {level : Nat} {e : Expr}
    (hlevels : ∀ connective : Connective, connective.level ≠ level + 1)
    (hlevel : e.level ≤ level + 1) :
    e.level ≤ level ∨
      ∃ operator argument span, e = .unary operator argument span ∧
        operator.level = level + 1 := by
  cases e using inductionOnConnectives with
  | literal value raw span => exact Or.inl (Nat.zero_le _)
  | unary operator argument span =>
      by_cases hown : operator.level = level + 1
      · exact Or.inr ⟨operator, argument, span, rfl, hown⟩
      · left
        have hle : operator.level ≤ level + 1 := hlevel
        show operator.level ≤ level
        omega
  | node connective left right span =>
      left
      have hne := hlevels connective
      rw [level_node] at hlevel ⊢
      omega

/-- Expressions that start with the same lexemes both start with a prefix
operator of the level, or neither does. -/
theorem Expr.level_le_of_append_eq {level : Nat} {a b : Expr} {rest rest' : List Lexeme}
    (hlevels : ∀ connective : Connective, connective.level ≠ level + 1)
    (hnormal : a.IsNormal) (ha : a.level ≤ level) (hb : b.level ≤ level + 1)
    (h : a.lexemes ++ rest = b.lexemes ++ rest') : b.level ≤ level := by
  rcases level_le_or_exists_unary hlevels hb with hlow | ⟨operator, argument, span, rfl, hown⟩
  · exact hlow
  · have hstart : operator.level ≤ a.level := level_le_of_lexemes_eq hnormal h
    omega

/-- What binds tighter than a level without connectives is read at the level
below. -/
theorem UniqueAt.of_level_le {level : Nat} (hunique : UniqueAt level)
    (hlevels : ∀ connective : Connective, connective.level ≠ level + 1)
    {a b : Expr} {rest rest' : List Lexeme} (hnormal : a.IsNormal) (hnormal' : b.IsNormal)
    (ha : a.level ≤ level) (hb : b.level ≤ level + 1) (hrest : Follows (level + 1) rest)
    (hrest' : Follows (level + 1) rest') (h : a.lexemes ++ rest = b.lexemes ++ rest') :
    a.eraseSpans = b.eraseSpans ∧ rest = rest' := by
  have hlow : b.level ≤ level := Expr.level_le_of_append_eq hlevels hnormal ha hb h
  exact hunique a b rest rest' hnormal hnormal' ha hlow (hrest.mono (Nat.le_succ _))
    (hrest'.mono (Nat.le_succ _)) h

/-- A level without connectives reads its prefix operators one by one. -/
theorem uniqueAt_succ_of_prefixes {level : Nat}
    (hlevels : ∀ connective : Connective, connective.level ≠ level + 1)
    (hunique : UniqueAt level) : UniqueAt (level + 1) := by
  intro a
  induction a using Expr.inductionOnConnectives with
  | literal value raw span =>
      intro b rest rest' hnormal hnormal' _ hb hrest hrest' h
      exact hunique.of_level_le hlevels hnormal hnormal' (Nat.zero_le _) hb hrest hrest' h
  | node connective left right span _ _ =>
      intro b rest rest' hnormal hnormal' ha hb hrest hrest' h
      have hne := hlevels connective
      have hlow : (connective.node left right span).level ≤ level := by
        rw [Expr.level_node] at ha ⊢
        omega
      exact hunique.of_level_le hlevels hnormal hnormal' hlow hb hrest hrest' h
  | unary operator argument span ih =>
      intro b rest rest' hnormal hnormal' ha hb hrest hrest' h
      rcases Expr.level_le_or_exists_unary hlevels hb with
        hlow | ⟨operator', argument', span', rfl, hown⟩
      · obtain ⟨heq, hrests⟩ :=
          hunique.of_level_le hlevels hnormal' hnormal hlow ha hrest' hrest h.symm
        exact ⟨heq.symm, hrests.symm⟩
      · simp only [Expr.lexemes, List.cons_append, List.cons.injEq, Lexeme.operator.injEq] at h
        obtain ⟨hspelling, hlexemes⟩ := h
        obtain rfl := UnaryOperator.spelling_inj hspelling
        obtain ⟨hargument, hnormalArgument⟩ := hnormal
        obtain ⟨hargument', hnormalArgument'⟩ := hnormal'
        obtain ⟨heq, hrests⟩ := ih argument' rest rest' hnormalArgument hnormalArgument'
          (by omega) (by omega) hrest hrest' hlexemes
        exact ⟨by rw [Expr.eraseSpans_unary, Expr.eraseSpans_unary, heq], hrests⟩

/-- At every level, what an expression is and where it ends are determined by
the lexemes from its first on. -/
theorem uniqueAt (level : Nat) : UniqueAt level := by
  induction level with
  | zero => exact uniqueAt_zero
  | succ level ih =>
      rcases UnaryOperator.level_ne_or_level_ne (level + 1) with hlevels | hlevels
      · exact uniqueAt_succ_of_connectives hlevels ih
      · exact uniqueAt_succ_of_prefixes hlevels ih

/-- Two normal forms with the same lexemes are the same up to spans. -/
theorem Expr.eraseSpans_eq_of_lexemes_eq {a b : Expr} (hnormal : a.IsNormal)
    (hnormal' : b.IsNormal) (h : a.lexemes = b.lexemes) : a.eraseSpans = b.eraseSpans := by
  have happend : a.lexemes ++ [] = b.lexemes ++ [] := by rw [h]
  have hread := uniqueAt (max a.level b.level) a b [] [] hnormal hnormal'
    (Nat.le_max_left _ _) (Nat.le_max_right _ _) trivial trivial happend
  exact hread.1

/-! ## Trees with the same tokens -/

/-- The classes of the tokens that may hold the text of an operator and stand for
an operand. -/
def operandKinds : List TokenKind :=
  [.name, .number, .string]

/-- A token with a value is not spelled like an operator, unless its class may
hold any text. -/
theorem Token.text_not_mem_of_value? {token : Token} {value : LiteralValue}
    (hvalue : token.value? = some value)
    (hplain : token.kind ∈ operandKinds → token.text ∉ operatorSpellings) :
    token.text ∉ operatorSpellings := by
  unfold Token.value? at hvalue
  cases hkind : token.kind with
  | name => exact hplain (by rw [hkind]; decide)
  | number => exact hplain (by rw [hkind]; decide)
  | string => exact hplain (by rw [hkind]; decide)
  | keyword =>
      rw [hkind] at hvalue
      by_cases htrue : token.text = "True"
      · rw [htrue]
        decide
      · by_cases hfalse : token.text = "False"
        · rw [hfalse]
          decide
        · simp [htrue, hfalse] at hvalue
  | _ => simp [hkind] at hvalue

/-- The class and the text of a token determine what it stands for. -/
theorem Token.StandsFor.unique {token token' : Token} {lexeme lexeme' : Lexeme}
    (hkind : token.kind = token'.kind) (htext : token.text = token'.text)
    (hplain : token.kind ∈ operandKinds → token.text ∉ operatorSpellings)
    (h : token.StandsFor lexeme) (h' : token'.StandsFor lexeme') : lexeme = lexeme' := by
  have hvalues : token.value? = token'.value? := by rw [value?, value?, hkind, htext]
  cases h with
  | operand hvalue =>
      cases h' with
      | operand hvalue' =>
          rw [hvalues, hvalue'] at hvalue
          rw [Option.some.inj hvalue, htext]
      | operator hspelling =>
          rw [← htext] at hspelling
          exact absurd hspelling (text_not_mem_of_value? hvalue hplain)
  | operator hspelling =>
      cases h' with
      | operand hvalue' =>
          rw [← hvalues] at hvalue'
          exact absurd hspelling (text_not_mem_of_value? hvalue' hplain)
      | operator _ => rw [htext]

/-- The class and the text of every token, in document order. -/
def Tree.marks (tree : Tree) : List (TokenKind × String) :=
  tree.tokens.map fun token => (token.kind, token.text)

/-- Tokens of the same kinds and texts stand for the same lexemes, when no operand is
spelled as an operator. -/
theorem lexemes_eq_of_standsFor {tokens tokens' : List Token} {lexemes lexemes' : List Lexeme}
    (h : List.Forall₂ Token.StandsFor tokens lexemes)
    (h' : List.Forall₂ Token.StandsFor tokens' lexemes')
    (hsame : tokens.map (fun token => (token.kind, token.text)) =
      tokens'.map fun token => (token.kind, token.text))
    (hplain : ∀ token ∈ tokens, token.kind ∈ operandKinds → token.text ∉ operatorSpellings) :
    lexemes = lexemes' := by
  induction h generalizing tokens' lexemes' with
  | nil =>
      obtain rfl : tokens' = [] := by simpa using hsame.symm
      exact (List.forall₂_nil_left_iff.mp h').symm
  | cons hhead _ ih =>
      obtain _ | ⟨hhead', htail'⟩ := h'
      · simp at hsame
      · obtain ⟨hfirst, hrest⟩ := List.cons.inj hsame
        obtain ⟨hkind, htext⟩ := Prod.mk.inj hfirst
        rw [hhead.unique hkind htext (hplain _ (by simp)) hhead',
          ih htail' hrest fun token htoken => hplain token (List.mem_cons_of_mem _ htoken)]

/-- Lowering is unambiguous: trees with the same tokens in document order are
lowered to the same expression up to spans, whatever their shapes are and
whichever rules they start with, when no name, number or string among the tokens
is spelled like an operator. -/
theorem eraseSpans_eq_of_marks_eq {tree tree' : Tree} {e e' : Expr}
    (h : lowerExpression tree = .ok e) (h' : lowerExpression tree' = .ok e')
    (hmarks : tree.marks = tree'.marks)
    (hplain : ∀ token ∈ tree.tokens,
      token.kind ∈ operandKinds → token.text ∉ operatorSpellings) :
    e.eraseSpans = e'.eraseSpans := by
  obtain ⟨rule, -, hlowers⟩ := lowerExpression_eq_ok_iff.mp h
  obtain ⟨rule', -, hlowers'⟩ := lowerExpression_eq_ok_iff.mp h'
  exact Expr.eraseSpans_eq_of_lexemes_eq hlowers.isNormal.1 hlowers'.isNormal.1
    (lexemes_eq_of_standsFor hlowers.standsFor hlowers'.standsFor hmarks hplain)

/-- A difference and a sum, under the rule that holds them. -/
def difference : Tree :=
  .chain .arithExpr (.factor "-" (.identifier "a")) [("-", .identifier "b"), ("+", .numeral "1")]

/-- The same tokens in another place, under the rule of lists. -/
def movedDifference : Tree :=
  (difference.lift .testlistStarExpr).mapSpans fun _ => ⟨3, 7⟩

/-- Neither the place nor the rule at the top changes what the tokens are. -/
theorem eraseSpans_difference :
    ∃ e e', lowerExpression difference = .ok e ∧ lowerExpression movedDifference = .ok e' ∧
      e ≠ e' ∧ e.eraseSpans = e'.eraseSpans := by
  have hlower : lowerExpression difference = .ok _ := rfl
  have hlower' : lowerExpression movedDifference = .ok _ := rfl
  have hsame := eraseSpans_eq_of_marks_eq hlower hlower' (by decide) (by decide)
  exact ⟨_, _, hlower, hlower', by decide, hsame⟩

end ScriptLowering
