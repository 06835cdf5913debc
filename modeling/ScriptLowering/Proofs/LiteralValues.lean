import ScriptLowering.Proofs.Unparsing

/-!
# The values of literals

Lowering keeps the raw text of every literal beside its value, and the text is
always a way to write the value.  The text of an integer may have a sign behind
the mark of its radix, where the grammar has none: `0x-5` is a literal of a
negative value.  Without such a sign a literal is written in digits alone and its
value is not negative.

Main results:

- Theorem `Lowers.isWritten`: the raw texts of an expression that is lowered write
  its literals.
- Theorem `IntegerLiteral.Denotes.exists_spells_iff`: a literal without a sign is
  written in digits alone.
- Theorem `lowered_signedNumber`: an integer literal may be negative.
- Theorem `integers_of_lowered`: every integer literal has the value that its raw
  text denotes, and is written in digits alone exactly when no sign stands in it.
-/

namespace ScriptLowering

/-! ## Literals of an expression -/

namespace Expr

/-- The literals of an expression, each with its raw text. -/
def literals : Expr → List (LiteralValue × String)
  | .literal value raw _ => [(value, raw)]
  | .unary _ argument _ => argument.literals
  | .binary _ left right _ => left.literals ++ right.literals
  | .logical _ left right _ => left.literals ++ right.literals

@[simp]
theorem literals_node (connective : Connective) (left right : Expr) (span : Span) :
    (connective.node left right span).literals = left.literals ++ right.literals := by
  cases connective <;> rfl

/-- The raw texts of an expression are ways to write its literals, one by one. -/
theorem isWritten_iff {e : Expr} :
    e.IsWritten ↔ ∀ literal ∈ e.literals, literal.1.IsWritten literal.2 := by
  induction e using inductionOnConnectives with
  | literal value raw span => simp [IsWritten, literals]
  | unary operator argument span ih => exact ih
  | node connective left right span ihleft ihright =>
      rw [isWritten_node, literals_node, List.forall_mem_append, ihleft, ihright]

/-- Operands that are written join to an expression that is. -/
theorem isWritten_joined {left : Expr} {steps : List (Connective × Expr)} (hleft : left.IsWritten)
    (hsteps : ∀ step ∈ steps, step.2.IsWritten) : (left.joined steps).IsWritten := by
  induction steps generalizing left with
  | nil => exact hleft
  | cons step steps ih =>
      have hjoin : (step.1.apply left step.2).IsWritten := by
        rw [step.1.apply_eq_node, isWritten_node]
        exact ⟨hleft, hsteps step (by simp)⟩
      exact ih hjoin fun other hother => hsteps other (List.mem_cons_of_mem _ hother)

end Expr

/-! ## Literals of lowered expressions -/

/-- The value of a text is the 64-bit integer that it denotes. -/
theorem IntegerLiteral.denotes_of_value? {text : String} {value : Int64}
    (h : value? text = .ok value) : Denotes text value.toInt := by
  obtain ⟨v, hdenotes, hfits, rfl⟩ := value?_eq_ok_iff.mp h
  obtain ⟨hlow, hhigh⟩ := hfits
  unfold maxValue at hlow hhigh
  rwa [Int64.toInt_ofInt_of_le (by omega) (by omega)]

/-- The text of a token is a way to write the value of the token. -/
theorem Token.isWritten_of_value? {token : Token} {value : LiteralValue}
    (h : token.value? = some value) : value.IsWritten token.text := by
  unfold Token.value? at h
  split at h
  · obtain rfl := Option.some.inj h
    rfl
  · cases hvalue : IntegerLiteral.value? token.text with
    | error fault => simp [hvalue, Except.toOption] at h
    | ok number =>
        simp only [hvalue, Except.toOption, Option.map_some, Option.some.injEq] at h
        obtain rfl := h
        exact IntegerLiteral.denotes_of_value? hvalue
  · obtain rfl := Option.some.inj h
    rfl
  · split at h
    · rename_i htrue
      obtain rfl := Option.some.inj h
      exact htrue
    · split at h
      · rename_i hfalse
        obtain rfl := Option.some.inj h
        exact hfalse
      · contradiction
  · contradiction

/-- Along a derivation, the raw texts of the expression write its literals. -/
theorem Lowers.isWritten {rule : Rule} {tree : Tree} {e : Expr} (h : Lowers rule tree e) :
    e.IsWritten := by
  induction h with
  | inner _ _ _ ih => exact ih
  | chain _ _ _ _ _ _ _ ihfirst ihrights =>
      apply Expr.isWritten_joined ihfirst
      intro joined hjoined
      obtain ⟨step, hstep, rfl⟩ := List.mem_map.mp hjoined
      exact ihrights step hstep
  | negation _ _ _ _ ih => exact ih
  | sign _ _ _ _ ih => exact ih
  | atom _ hvalue => exact Token.isWritten_of_value? (lowerLiteral_eq_ok_iff.mp hvalue)

/-! ## Signs behind the mark of a radix -/

namespace IntegerLiteral

/-- A text writes a number in digits alone: decimal digits, or the digits of
another radix after its mark. -/
inductive Spells (text : String) (value : Nat) : Prop
  | decimal (hrun : Run 10 (digits text) value)
  | marked {radix : Nat} {mark body : List Char} (hmark : Mark radix mark)
      (hdigits : digits text = mark ++ body) (hrun : Run radix body value)

/-- A text has a sign behind the mark of a radix. -/
def HasSign (text : String) : Prop :=
  ∃ radix mark sign body, Mark radix mark ∧ (sign = '+' ∨ sign = '-') ∧
    digits text = mark ++ sign :: body

/-- A text has one mark at most. -/
theorem Mark.append_inj {radix radix' : Nat} {mark mark' body body' : List Char}
    (hmark : Mark radix mark) (hmark' : Mark radix' mark')
    (h : mark ++ body = mark' ++ body') : radix = radix' ∧ body = body' := by
  have hsplit := splitRadix_of_mark hmark body
  rw [h, splitRadix_of_mark hmark'] at hsplit
  exact Prod.mk.inj hsplit.symm

/-- Digits alone have no sign behind a mark. -/
theorem Spells.not_hasSign {text : String} {value : Nat} (h : Spells text value) :
    ¬ HasSign text := by
  rintro ⟨radix, mark, sign, body, hmark, hsign, hdigits⟩
  cases h with
  | decimal hrun => exact hrun.isUnmarked _ _ _ hmark hdigits
  | marked hmark' hdigits' hrun =>
      obtain ⟨rfl, rfl⟩ := hmark'.append_inj hmark (hdigits'.symm.trans hdigits)
      obtain ⟨hplus, hminus⟩ := hrun.head_ne_sign hmark.radix_bounds.2.1
      rcases hsign with hsign | hsign
      · exact hplus hsign
      · exact hminus hsign

/-- A literal is written in digits alone exactly when it has no sign behind a
mark. -/
theorem Denotes.exists_spells_iff {text : String} {value : Int} (h : Denotes text value) :
    (∃ n : Nat, Spells text n ∧ value = n) ↔ ¬ HasSign text := by
  constructor
  · rintro ⟨n, hspells, -⟩
    exact hspells.not_hasSign
  · intro hsign
    -- Of the runs behind a mark only those with a sign are not digits alone.
    cases h with
    | decimal hrun => exact ⟨_, .decimal hrun, rfl⟩
    | marked hmark hdigits hsigned =>
        cases hsigned with
        | plain hrun => exact ⟨_, .marked hmark hdigits hrun, rfl⟩
        | plus hrun => exact absurd ⟨_, _, _, _, hmark, Or.inl rfl, hdigits⟩ hsign
        | minus hrun => exact absurd ⟨_, _, _, _, hmark, Or.inr rfl, hdigits⟩ hsign

end IntegerLiteral

open IntegerLiteral

/-- A hexadecimal number with a sign behind its mark. -/
def signedNumber : Tree :=
  .numeral "0x-5"

/-- A tree is lowered to a negative integer literal, whose raw text has a sign in
it. -/
theorem lowered_signedNumber :
    ∃ e, lowerExpression signedNumber = .ok e ∧ e.literals = [(.integer (-5), "0x-5")] ∧
      ¬ (0 : Int) ≤ (-5 : Int64).toInt ∧ HasSign "0x-5" ∧
      ¬ ∃ n : Nat, Spells "0x-5" n ∧ (-5 : Int64).toInt = n := by
  have hsign : HasSign "0x-5" :=
    ⟨16, ['0', 'x'], '-', ['5'], .hexadecimal (Or.inl rfl), Or.inr rfl, by decide⟩
  refine ⟨_, rfl, by decide, by decide, hsign, ?_⟩
  rintro ⟨n, hspells, -⟩
  exact hspells.not_hasSign hsign

/-- Every integer literal of an expression that is lowered has the value that its
raw text denotes.  It has no sign behind the mark of a radix exactly when it is
written in digits alone, with a value from zero to the largest one. -/
theorem integers_of_lowered {tree : Tree} {e : Expr} (h : lowerExpression tree = .ok e)
    {value : Int64} {raw : String} (hliteral : (.integer value, raw) ∈ e.literals) :
    Denotes raw value.toInt ∧
      (¬ HasSign raw ↔
        (0 ≤ value.toInt ∧ value.toInt ≤ maxValue) ∧
          ∃ n : Nat, Spells raw n ∧ value.toInt = n) := by
  obtain ⟨rule, -, hlowers⟩ := lowerExpression_eq_ok_iff.mp h
  have hdenotes : Denotes raw value.toInt := Expr.isWritten_iff.mp hlowers.isWritten _ hliteral
  refine ⟨hdenotes, ?_⟩
  rw [← hdenotes.exists_spells_iff]
  constructor
  · rintro ⟨n, hspells, hvalue⟩
    have hhigh := value.toInt_lt
    refine ⟨⟨?_, ?_⟩, n, hspells, hvalue⟩
    · omega
    · unfold maxValue
      omega
  · rintro ⟨-, hspells⟩
    exact hspells

/-- A hexadecimal number minus a negated decimal one, both with underscores. -/
def separatedNumbers : Tree :=
  .chain .arithExpr (.numeral "0x_1F") [("-", .factor "-" (.numeral "1_0"))]

/-- The sign before the decimal number is an operator and no part of the literal:
both literals are written in digits alone. -/
theorem integers_of_lowered_separatedNumbers :
    ∃ e, lowerExpression separatedNumbers = .ok e ∧
      e.literals = [(.integer 31, "0x_1F"), (.integer 10, "1_0")] ∧
      (∃ n : Nat, Spells "0x_1F" n ∧ (31 : Int64).toInt = n) ∧
      ∃ n : Nat, Spells "1_0" n ∧ (10 : Int64).toInt = n := by
  have hrun : Run 16 ['1', 'F'] 31 :=
    ((readDigits_run_eq_ok_iff (by decide) (by decide) (by decide)).mp
      (rfl : readDigits 16 31 0 ['1', 'F'] = .ok 31)).1
  have hrun' : Run 10 ['1', '0'] 10 :=
    ((readDigits_run_eq_ok_iff (by decide) (by decide) (by decide)).mp
      (rfl : readDigits 10 10 0 ['1', '0'] = .ok 10)).1
  have hspells : Spells "0x_1F" 31 := .marked (.hexadecimal (Or.inl rfl)) (by decide) hrun
  have hspells' : Spells "1_0" 10 := .decimal hrun'
  have hlowered : ∃ e, lowerExpression separatedNumbers = .ok e ∧
      e.literals = [(.integer 31, "0x_1F"), (.integer 10, "1_0")] := ⟨_, rfl, by decide⟩
  obtain ⟨e, hok, hliterals⟩ := hlowered
  have hfirst := integers_of_lowered hok (hliterals ▸ List.mem_cons_self)
  have hsecond := integers_of_lowered hok
    (hliterals ▸ List.mem_cons_of_mem _ List.mem_cons_self)
  exact ⟨e, hok, hliterals, (hfirst.2.mp hspells.not_hasSign).2,
    (hsecond.2.mp hspells'.not_hasSign).2⟩

end ScriptLowering
