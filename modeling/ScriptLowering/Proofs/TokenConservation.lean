import Mathlib.Data.List.Forall2
import ScriptLowering.Grammar.ExpressionForms
import ScriptLowering.Proofs.Descent
import ScriptLowering.Script.Spelling

/-!
# Conservation of tokens

An expression is made of operands and operators, and each of them stands for
one token.  Lowering keeps the tokens of a tree one by one: read in order, the
operands and operators of the result stand for the tokens of the tree in
document order, whatever the shape of the tree.

Main results:

- Theorem `Lowers.standsFor`: along a derivation, the tokens of the tree stand
  one by one for the lexemes of the expression.
- Theorem `map_text_tokens_eq_spelling`: the texts of the tokens of a tree are
  the spelling of the expression that it is lowered to.
-/

namespace ScriptLowering

/-! ## Lexemes -/

/-- What a token stands for in an expression: an operand, or an operator in the
words of the source. -/
inductive Lexeme where
  | operand (value : LiteralValue) (raw : String)
  | operator (spelling : String)
deriving DecidableEq, Inhabited

/-- The text of a lexeme. -/
def Lexeme.text : Lexeme → String
  | .operand _ raw => raw
  | .operator spelling => spelling

/-- The spellings of the operators of an expression. -/
def operatorSpellings : List String :=
  ["+", "-", "*", "/", "|", ">", "<", ">=", "<=", "!=", "in", "not", "and", "or"]

/-- A connective is spelled as an operator. -/
theorem Connective.spelling_mem (connective : Connective) :
    connective.spelling ∈ operatorSpellings := by
  cases connective with
  | binary operator => cases operator <;> decide
  | logical operator => cases operator <;> decide

theorem UnaryOperator.spelling_mem (operator : UnaryOperator) :
    operator.spelling ∈ operatorSpellings := by
  cases operator <;> decide

namespace Expr

/-- The operands and operators of an expression in the order of the source. -/
def lexemes : Expr → List Lexeme
  | .literal value raw _ => [.operand value raw]
  | .unary operator argument _ => .operator operator.spelling :: argument.lexemes
  | .binary operator left right _ =>
    left.lexemes ++ .operator operator.symbol :: right.lexemes
  | .logical operator left right _ =>
    left.lexemes ++ .operator operator.spelling :: right.lexemes

/-- The spelling of an expression is the text of its lexemes. -/
theorem spelling_eq_map_lexemes (e : Expr) : e.spelling = e.lexemes.map Lexeme.text := by
  induction e with
  | literal value raw span => rfl
  | unary operator argument span ih => simp [spelling, lexemes, ih, Lexeme.text]
  | binary operator left right span ihleft ihright =>
      simp [spelling, lexemes, ihleft, ihright, Lexeme.text]
  | logical operator left right span ihleft ihright =>
      simp [spelling, lexemes, ihleft, ihright, Lexeme.text]

/-- The lexemes of joined operands have the spelling of the connective between them. -/
@[simp]
theorem lexemes_node (connective : Connective) (left right : Expr) (span : Span) :
    (connective.node left right span).lexemes =
      left.lexemes ++ .operator connective.spelling :: right.lexemes := by
  cases connective <;> rfl

@[simp]
theorem lexemes_apply (connective : Connective) (left right : Expr) :
    (connective.apply left right).lexemes =
      left.lexemes ++ .operator connective.spelling :: right.lexemes := by
  rw [connective.apply_eq_node, lexemes_node]

/-- Positions leave no trace in the lexemes. -/
@[simp]
theorem lexemes_eraseSpans (e : Expr) : e.eraseSpans.lexemes = e.lexemes := by
  induction e using inductionOnConnectives with
  | literal value raw span => rfl
  | unary operator argument span ih => simp [lexemes, ih]
  | node connective left right span ihleft ihright => simp [ihleft, ihright]

/-- The lexemes of further operands, each after its operator. -/
def lexemesOfSteps (steps : List (Connective × Expr)) : List Lexeme :=
  steps.flatMap fun step => .operator step.1.spelling :: step.2.lexemes

@[simp]
theorem lexemesOfSteps_nil : lexemesOfSteps [] = [] :=
  rfl

@[simp]
theorem lexemesOfSteps_cons (step : Connective × Expr) (steps : List (Connective × Expr)) :
    lexemesOfSteps (step :: steps) =
      .operator step.1.spelling :: (step.2.lexemes ++ lexemesOfSteps steps) :=
  rfl

/-- Joining appends the lexemes of the further operands. -/
theorem lexemes_joined (left : Expr) (steps : List (Connective × Expr)) :
    (left.joined steps).lexemes = left.lexemes ++ lexemesOfSteps steps := by
  induction steps generalizing left with
  | nil => simp
  | cons step steps ih => simp [ih]

end Expr

/-! ## The values of tokens -/

/-- The value of the operand that a token is, if it is one of the subset. -/
def Token.value? (token : Token) : Option LiteralValue :=
  match token.kind with
  | .name => some (.name token.text)
  | .number => (IntegerLiteral.value? token.text).toOption.map .integer
  | .string => some (.string token.text)
  | .keyword =>
    if token.text = "True" then some (.boolean true)
    else if token.text = "False" then some (.boolean false)
    else none
  | _ => none

/-- The only token of an atom is lowered exactly when it has a value. -/
theorem lowerLiteral_eq_ok_iff {atom : Tree} {token : Token} {value : LiteralValue} :
    lowerLiteral atom token = .ok value ↔ token.value? = some value := by
  unfold lowerLiteral Token.value?
  cases token.kind with
  | number =>
      unfold lowerNumber
      cases hvalue : IntegerLiteral.value? token.text with
      | ok number => simp [Except.toOption]
      | error fault => cases fault <;> simp [Except.toOption]
  | keyword =>
      by_cases htrue : token.text = "True"
      · simp [htrue]
      by_cases hfalse : token.text = "False"
      · simp [hfalse]
      by_cases hnone : token.text = "None"
      · simp [hnone]
      · simp [htrue, hfalse, hnone]
  | operator =>
      by_cases hdots : token.text = "..."
      · simp [hdots]
      · simp [hdots]
  | _ => simp

/-! ## Tokens of an accepted tree -/

/-- A token stands for an operand whose value it has, or for an operator that
is spelled like it. -/
inductive Token.StandsFor : Token → Lexeme → Prop
  | operand {token : Token} {value : LiteralValue} (hvalue : token.value? = some value) :
      token.StandsFor (.operand value token.text)
  | operator {token : Token} (hspelling : token.text ∈ operatorSpellings) :
      token.StandsFor (.operator token.text)

/-- A token has the text of the lexeme that it stands for. -/
theorem Token.StandsFor.text_eq {token : Token} {lexeme : Lexeme} (h : token.StandsFor lexeme) :
    token.text = lexeme.text := by
  cases h <;> rfl

/-- The text of an operator is the joined text of its tokens. -/
theorem operatorText_eq_ok {operator : Tree} {text : String} {span : Span}
    (h : operatorText operator = .ok (text, span)) :
    text = operator.tokenText ∧ span = operator.span := by
  cases operator with
  | leaf token =>
      simp only [operatorText, Except.ok.injEq, Prod.mk.injEq] at h
      obtain ⟨rfl, rfl⟩ := h
      simp [Tree.tokenText]
  | node rule children place =>
      simp only [operatorText] at h
      split at h
      · simp only [Except.ok.injEq, Prod.mk.injEq] at h
        obtain ⟨rfl, rfl⟩ := h
        exact ⟨rfl, rfl⟩
      · simp at h

/-- A joined text without a space is the text of a single token. -/
theorem exists_token_of_tokenText {tree : Tree} {text : String} (h : tree.tokenText = text)
    (hne : text ≠ "") (hspace : ' ' ∉ text.toList) :
    ∃ token, tree.tokens = [token] ∧ token.text = text := by
  unfold Tree.tokenText at h
  match htokens : tree.tokens with
  | [] =>
      rw [htokens] at h
      exact absurd h.symm hne
  | [token] =>
      rw [htokens] at h
      exact ⟨token, rfl, by simpa using h⟩
  | first :: second :: rest =>
      rw [htokens] at h
      have hmem : ' ' ∈ text.toList := by
        rw [← h]
        simp
      exact absurd hmem hspace

/-- The operator of a chain is a single token, spelled like the connective that
it is lowered to. -/
theorem exists_token_of_lowerConnective {rule : Rule} {operator : Tree} {connective : Connective}
    (h : lowerConnective rule operator = .ok connective) :
    ∃ token, operator.tokens = [token] ∧ token.text = connective.spelling := by
  obtain ⟨text, span, htext, hfound⟩ := lowerConnective_eq_ok_iff.mp h
  obtain ⟨rfl, rfl⟩ := operatorText_eq_ok htext
  have hspelling := (Rule.connective?_eq_some hfound).2
  have hplain : connective.spelling ≠ "" ∧ ' ' ∉ connective.spelling.toList := by
    have hmem := connective.spelling_mem
    generalize connective.spelling = spelling at hmem
    revert spelling
    decide
  exact exists_token_of_tokenText hspelling.symm hplain.1 hplain.2

/-! ## Conservation -/

/-- The steps of a chain keep their tokens when their operands do. -/
theorem forall₂_standsFor_steps {rule : Rule} {steps : List ChainStep}
    (hconnectives : ∀ step ∈ steps, lowerConnective rule step.operator = .ok step.connective)
    (hrights : ∀ step ∈ steps,
      List.Forall₂ Token.StandsFor step.operand.tokens step.right.lexemes) :
    List.Forall₂ Token.StandsFor ((steps.flatMap ChainStep.children).flatMap Tree.tokens)
      (Expr.lexemesOfSteps (steps.map ChainStep.joins)) := by
  induction steps with
  | nil => exact .nil
  | cons step steps ih =>
      obtain ⟨token, htokens, htext⟩ :=
        exists_token_of_lowerConnective (hconnectives step (by simp))
      have hoperator : token.StandsFor (.operator step.connective.spelling) := by
        rw [← htext]
        exact .operator (htext ▸ step.connective.spelling_mem)
      have hright := hrights step (by simp)
      have hrest := ih (fun other hother => hconnectives other (List.mem_cons_of_mem _ hother))
        (fun other hother => hrights other (List.mem_cons_of_mem _ hother))
      simpa [ChainStep.children, ChainStep.joins, htokens] using
        List.Forall₂.cons hoperator (List.rel_append hright hrest)

/-- Along a derivation, the tokens of the tree stand one by one for the lexemes
of the expression. -/
theorem Lowers.standsFor {rule : Rule} {tree : Tree} {e : Expr} (h : Lowers rule tree e) :
    List.Forall₂ Token.StandsFor tree.tokens e.lexemes := by
  induction h with
  | inner hinner hbelow _ ih => simpa using ih
  | chain hform hshort hoperand _ hconnectives _ _ ihfirst ihrights =>
      rw [Expr.lexemes_joined, Tree.tokens_node, List.flatMap_cons]
      exact List.rel_append ihfirst (forall₂_standsFor_steps hconnectives ihrights)
  | @negation _ _ word operand span argument hform hword hoperand _ ih =>
      obtain ⟨-, htext⟩ := Token.is_iff.mp hword
      have hoperator : word.StandsFor (.operator "not") := by
        rw [← htext]
        exact .operator (by rw [htext]; decide)
      simpa [Expr.lexemes, UnaryOperator.spelling] using List.Forall₂.cons hoperator ih
  | @sign _ _ sign operand span argument operator hform hsign hoperand _ ih =>
      have hspelling := (sign?_eq_some hsign).2
      have hoperator : sign.StandsFor (.operator operator.spelling) := by
        rw [hspelling]
        exact .operator (hspelling ▸ operator.spelling_mem)
      simpa [Expr.lexemes] using List.Forall₂.cons hoperator ih
  | atom hform hvalue =>
      have hoperand := Token.StandsFor.operand (lowerLiteral_eq_ok_iff.mp hvalue)
      simpa [Expr.lexemes] using List.Forall₂.cons hoperand .nil

/-- Tokens that stand for lexemes have their texts. -/
theorem map_text_eq_of_forall₂ {tokens : List Token} {lexemes : List Lexeme}
    (h : List.Forall₂ Token.StandsFor tokens lexemes) :
    tokens.map Token.text = lexemes.map Lexeme.text := by
  induction h with
  | nil => rfl
  | cons hhead _ ih => rw [List.map_cons, List.map_cons, ih, hhead.text_eq]

/-- Lowering an expression loses, repeats and moves no operand and no operator:
the texts of the tokens of the tree are the spelling of the result. -/
theorem map_text_tokens_eq_spelling {tree : Tree} {e : Expr} (h : lowerExpression tree = .ok e) :
    tree.tokens.map Token.text = e.spelling := by
  obtain ⟨rule, -, hlowers⟩ := lowerExpression_eq_ok_iff.mp h
  rw [Expr.spelling_eq_map_lexemes]
  exact map_text_eq_of_forall₂ hlowers.standsFor

/-- A comparison whose operator is buried under further nodes, one of them
without children. -/
def buriedComparison : Tree :=
  .ofChildren .comparison
    [ (Tree.identifier "a").lift .expr,
      .ofChildren .compOp
        [.ofChildren .trailer [], .ofChildren .compOp [.leaf (.keyword "in")]],
      (Tree.numeral "3").lift .expr]

/-- Nothing is lost below the level at which the grammar ends. -/
theorem spelling_buriedComparison :
    ∃ e, lowerExpression buriedComparison = .ok e ∧ e.spelling = ["a", "in", "3"] ∧
      buriedComparison.tokens.map Token.text = e.spelling :=
  ⟨_, rfl, by decide, map_text_tokens_eq_spelling rfl⟩

end ScriptLowering
