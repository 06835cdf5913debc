import ScriptLowering.Proofs.LiteralValues

/-!
# Atoms that are numbers

What the lowering of a number atom gives can be told from its text alone.  Digits
without a sign have one positional value, which is the literal when it fits in 64
bits and overflows when it does not; how many digits there are makes no difference.
A decimal number with a character that is no digit is no integer, and a text that
is written in no other way has a value only when a sign stands behind the mark of
its radix.

Main results:

- Theorem `IntegerLiteral.Spells.unique`: a text spells one number.
- Theorem `IntegerLiteral.value?_eq_notInteger_iff`: the numbers that are no
  integers.
- Theorem `IntegerLiteral.Spells.value?_eq_overflow`: digits whose value is too
  large overflow.
- Theorem `lowerExpression_numberAtom`: what a number atom is lowered to.
-/

namespace ScriptLowering

namespace IntegerLiteral

/-! ## Numbers that are spelled -/

section Spelling

variable {radix value : Nat} {cs : List Char} {text : String}

/-- A run of digits has one value. -/
theorem Run.unique {value' : Nat} (hradix : radix ≤ 16) (hpos : 0 < radix)
    (h : Run radix cs value) (h' : Run radix cs value') : value = value' := by
  have hread := (readDigits_run_eq_ok_iff hradix hpos h.1).mpr ⟨h, Nat.le_max_left value value'⟩
  have hread' :=
    (readDigits_run_eq_ok_iff hradix hpos h.1).mpr ⟨h', Nat.le_max_right value value'⟩
  exact Except.ok.inj (hread.symm.trans hread')

/-- A text spells one number. -/
theorem Spells.unique {value' : Nat} (h : Spells text value) (h' : Spells text value') :
    value = value' := by
  cases h with
  | decimal hrun =>
      cases h' with
      | decimal hrun' => exact hrun.unique (by decide) (by decide) hrun'
      | marked hmark hdigits _ => exact absurd hdigits (hrun.isUnmarked _ _ _ hmark)
  | marked hmark hdigits hrun =>
      cases h' with
      | decimal hrun' => exact absurd hdigits (hrun'.isUnmarked _ _ _ hmark)
      | marked hmark' hdigits' hrun' =>
          obtain ⟨rfl, rfl⟩ := hmark.append_inj hmark' (hdigits.symm.trans hdigits')
          obtain ⟨hpos, hradix, -⟩ := hmark.radix_bounds
          exact hrun.unique hradix (by omega) hrun'

/-- A text in digits alone is an integer literal of its value. -/
theorem Spells.denotes (h : Spells text value) : Denotes text value := by
  cases h with
  | decimal hrun => exact .decimal hrun
  | marked hmark hdigits hrun => exact .marked hmark hdigits (.plain hrun)

/-- A text in digits alone is a number of the source language. -/
theorem Spells.isNumeral (h : Spells text value) : IsNumeral text := by
  cases h with
  | decimal hrun => exact .decimal hrun
  | marked hmark hdigits hrun => exact .marked hmark hdigits hrun

/-- A text that spells a number denotes no other one. -/
theorem Spells.eq_of_denotes {number : Int} (h : Spells text value)
    (hdenotes : Denotes text number) : number = value := by
  obtain ⟨n, hspells, rfl⟩ := hdenotes.exists_spells_iff.mpr h.not_hasSign
  rw [hspells.unique h]

end Spelling

/-! ## Why a text has no value -/

section Faults

variable {radix : Nat} {cs : List Char} {text : String}

/-- Reading digits fails for other reasons than that the text is no integer. -/
theorem readDigits_ne_notInteger {limit start : Nat} :
    readDigits radix limit start cs ≠ .error .notInteger := by
  induction cs generalizing start with
  | nil =>
      rw [readDigits]
      simp
  | cons c cs ih =>
      rw [readDigits]
      split
      · simp
      · split
        · simp
        · exact ih

theorem readSigned_ne_notInteger : readSigned radix cs ≠ .error .notInteger := by
  unfold readSigned
  split
  · nofun
  · nofun
  · nofun
  · exact map_ne_error readDigits_ne_notInteger
  · split <;> nofun
  · exact map_ne_error readDigits_ne_notInteger

/-- A number is no integer when it has no mark and not only digits. -/
theorem value?_eq_notInteger_iff :
    value? text = .error .notInteger ↔
      IsUnmarked (digits text) ∧ ¬ (digits text).all Char.isDigit := by
  constructor
  · intro h
    have hunmarked : IsUnmarked (digits text) := by
      intro radix mark body hmark hdigits
      rw [value?_of_mark hmark hdigits] at h
      exact map_ne_error readSigned_ne_notInteger h
    refine ⟨hunmarked, fun hdigits => ?_⟩
    rw [value?_of_isUnmarked hunmarked, if_pos hdigits] at h
    exact map_ne_error readSigned_ne_notInteger h
  · rintro ⟨hunmarked, hletter⟩
    rw [value?_of_isUnmarked hunmarked, if_neg hletter]

/-- A number that fits in 64 bits is the value of the text that spells it. -/
theorem Spells.exists_value? {value : Nat} (h : Spells text value) (hfits : value ≤ maxValue) :
    ∃ number : Int64, number.toInt = value ∧ value? text = .ok number := by
  have hvalue : Fits value := by
    unfold Fits
    omega
  refine ⟨Int64.ofInt value, ?_, value?_eq_ok_iff.mpr ⟨value, h.denotes, hvalue, rfl⟩⟩
  unfold maxValue at hfits
  exact Int64.toInt_ofInt_of_le (by omega) (by omega)

/-- A number that does not fit in 64 bits overflows, with however many digits it is
spelled. -/
theorem Spells.value?_eq_overflow {value : Nat} (h : Spells text value)
    (hover : maxValue < value) : value? text = .error .overflow := by
  cases hvalue : value? text with
  | ok number =>
      obtain ⟨denoted, hdenotes, hfits, -⟩ := value?_eq_ok_iff.mp hvalue
      obtain rfl := h.eq_of_denotes hdenotes
      have hhigh := hfits.2
      omega
  | error fault =>
      cases fault with
      | overflow => rfl
      | malformed => exact absurd hvalue (value?_ne_malformed h.isNumeral)
      | notInteger =>
          -- Digits alone are decimal or stand behind a mark.
          obtain ⟨hunmarked, hletter⟩ := value?_eq_notInteger_iff.mp hvalue
          cases h with
          | decimal hrun => exact absurd hrun.all_isDigit hletter
          | marked hmark hdigits _ => exact absurd hdigits (hunmarked _ _ _ hmark)

/-- A text that spells no number has a value only with a sign in it. -/
theorem exists_error_of_not_spells (hspells : ∀ value, ¬ Spells text value)
    (hsign : ¬ HasSign text) : ∃ fault, value? text = .error fault := by
  cases hvalue : value? text with
  | error fault => exact ⟨fault, rfl⟩
  | ok number =>
      obtain ⟨denoted, hdenotes, -⟩ := value?_eq_ok_iff.mp hvalue
      obtain ⟨n, hn, -⟩ := hdenotes.exists_spells_iff.mpr hsign
      exact absurd hn (hspells n)

end Faults

end IntegerLiteral

open IntegerLiteral

/-! ## Number atoms -/

/-- What the lowering of a number atom gives, told from the text of the number: the
number that it spells in digits alone, if that fits in 64 bits; a number that is
refused, because it is too large or because it has no mark and not only digits; or
else an error, unless there is a sign behind the mark of its radix. -/
structure NumberOutcome (text : String) (span : Span) (result : Lowered Expr) : Prop where
  fits {value : Nat} (hspells : Spells text value) (hfits : value ≤ maxValue) :
    ∃ number : Int64, number.toInt = value ∧
      result = .ok (.literal (.integer number) text span)
  overflow {value : Nat} (hspells : Spells text value) (hover : maxValue < value) :
    result = refuse .integerOverflow span
  notInteger (hunmarked : IsUnmarked (digits text))
    (hletter : ¬ (digits text).all Char.isDigit) :
    result = refuse .nonIntegerLiterals span
  otherwise (hspells : ∀ value, ¬ Spells text value) (hsign : ¬ HasSign text) :
    ∃ error, result = .error error

/-- An atom that holds a number is lowered to the value of its text. -/
theorem lowerExpression_numberAtom_eq (text : String) (place span : Span) :
    lowerExpression (.node .atom [.leaf ⟨.number, text, place⟩] span) =
      (lowerNumber text span).map fun value => .literal value text span := by
  have hlowered : lowerExpression (.node .atom [.leaf ⟨.number, text, place⟩] span) =
      lowerAtom (.node .atom [.leaf ⟨.number, text, place⟩] span) :=
    lowerAs_atom (show Rule.form .atom = .atom from rfl) _ _
  rw [hlowered]
  rfl

/-- Every number atom is lowered to what its text tells. -/
theorem lowerExpression_numberAtom (text : String) (place span : Span) :
    NumberOutcome text span
      (lowerExpression (.node .atom [.leaf ⟨.number, text, place⟩] span)) := by
  rw [lowerExpression_numberAtom_eq, lowerNumber]
  constructor
  case fits =>
    intro value hspells hfits
    obtain ⟨number, hnumber, hvalue⟩ := hspells.exists_value? hfits
    exact ⟨number, hnumber, by rw [hvalue]; rfl⟩
  case overflow =>
    intro value hspells hover
    rw [hspells.value?_eq_overflow hover]
    rfl
  case notInteger =>
    intro hunmarked hletter
    rw [value?_eq_notInteger_iff.mpr ⟨hunmarked, hletter⟩]
    rfl
  case otherwise =>
    intro hspells hsign
    obtain ⟨fault, hfault⟩ := exists_error_of_not_spells hspells hsign
    rw [hfault]
    cases fault <;> exact ⟨_, rfl⟩

/-- The largest literal, behind zeros and underscores, and the number after it, with a
mark: only the first has a value. -/
theorem lowerExpression_numberAtom_limits :
    Spells "00_9223372036854775807_" maxValue ∧
      Spells "0X_8000_0000_0000_0000" (maxValue + 1) ∧
      (∃ number : Int64, number.toInt = maxValue ∧
        lowerExpression (.numeral "00_9223372036854775807_") =
          .ok (.literal (.integer number) "00_9223372036854775807_" .unplaced)) ∧
      lowerExpression (.numeral "0X_8000_0000_0000_0000") = refuse .integerOverflow .unplaced := by
  have hrun : Run 10 (digits "00_9223372036854775807_") maxValue :=
    ((readDigits_run_eq_ok_iff (by decide) (by decide) (by decide)).mp
      (by decide : readDigits 10 maxValue 0 (digits "00_9223372036854775807_") = .ok maxValue)).1
  have hrun' : Run 16 ('8' :: List.replicate 15 '0') (maxValue + 1) :=
    ((readDigits_run_eq_ok_iff (by decide) (by decide) (by decide)).mp
      (by decide : readDigits 16 (maxValue + 1) 0 ('8' :: List.replicate 15 '0') =
        .ok (maxValue + 1))).1
  have hspells : Spells "00_9223372036854775807_" maxValue := .decimal hrun
  have hspells' : Spells "0X_8000_0000_0000_0000" (maxValue + 1) :=
    .marked (.hexadecimal (Or.inr rfl)) (by decide) hrun'
  exact ⟨hspells, hspells', (lowerExpression_numberAtom _ _ _).fits hspells (Nat.le_refl _),
    (lowerExpression_numberAtom _ _ _).overflow hspells' (Nat.lt_succ_self _)⟩

end ScriptLowering
