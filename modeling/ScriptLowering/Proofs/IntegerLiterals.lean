import Mathlib.Data.List.Forall2
import Mathlib.Data.Nat.Digits.Defs
import ScriptLowering.Lowering.Integer

/-!
# The values of integer literals

What an integer literal denotes is said here without the reader: a run of
digits has its positional value, and a literal is a decimal run, or the mark of
another radix before a run that may have a sign.  The reader accumulates digits
from the left and stops at the first one that takes it over the limit, which
comes to the same because the value only grows.

Main results:

- Theorem `digitValue?_eq_some_iff`: the digits of a radix are the characters
  that the digit table of the library gives, in either case.
- Theorem `readDigits_eq_ok_iff`: a run is read exactly when it has digits only
  and a value within the limit.
- Theorem `value?_eq_ok_iff`: a text has a value exactly when it denotes a 64-bit
  integer.
- Theorem `value?_ne_malformed`: a well-formed number is never malformed.
-/

namespace ScriptLowering
namespace IntegerLiteral

/-! ## Digits -/

/-- A character is the digit of a radix with the given value, in either case. -/
def IsDigit (radix : Nat) (c : Char) (digit : Nat) : Prop :=
  digit < radix ∧ (c = Nat.digitChar digit ∨ c = (Nat.digitChar digit).toUpper)

/-- The characters of the digit table, by their code points. -/
theorem eq_digitChar_of_toNat {c : Char} (first last offset : Nat)
    (hrange : first ≤ c.toNat ∧ c.toNat ≤ last)
    (htable : ∀ n, n ≤ last → first ≤ n → Char.ofNat n = Nat.digitChar (n - first + offset) ∨
      Char.ofNat n = (Nat.digitChar (n - first + offset)).toUpper) :
    c = Nat.digitChar (c.toNat - first + offset) ∨
      c = (Nat.digitChar (c.toNat - first + offset)).toUpper := by
  have hchar := htable c.toNat hrange.2 hrange.1
  rwa [Char.ofNat_toNat] at hchar

/-- A character that has a value as a digit is a digit. -/
theorem isDigit_of_digitValue? {radix : Nat} {c : Char} {digit : Nat}
    (h : digitValue? radix c = some digit) : IsDigit radix c digit := by
  obtain ⟨hvalue, hradix⟩ := Option.filter_eq_some_iff.mp h
  refine ⟨by simpa using hradix, ?_⟩
  split at hvalue
  · rename_i hrange
    obtain rfl := Option.some.inj hvalue
    exact eq_digitChar_of_toNat 48 57 0 hrange (by decide)
  · split at hvalue
    · rename_i hrange
      obtain rfl := Option.some.inj hvalue
      exact eq_digitChar_of_toNat 97 102 10 hrange (by decide)
    · split at hvalue
      · rename_i hrange
        obtain rfl := Option.some.inj hvalue
        exact eq_digitChar_of_toNat 65 70 10 hrange (by decide)
      · contradiction

/-- The digits of a radix up to sixteen. -/
theorem digitValue?_eq_some_iff {radix : Nat} {c : Char} {digit : Nat} (hradix : radix ≤ 16) :
    digitValue? radix c = some digit ↔ IsDigit radix c digit := by
  refine ⟨isDigit_of_digitValue?, ?_⟩
  rintro ⟨hdigit, hchar⟩
  have hbound : digit < 16 := by omega
  have htable : digitValue? 16 c = some digit := by
    clear hdigit
    rcases hchar with rfl | rfl <;> revert digit <;> decide
  obtain ⟨hvalue, -⟩ := Option.filter_eq_some_iff.mp htable
  exact Option.filter_eq_some_iff.mpr ⟨hvalue, by simpa using hdigit⟩

/-- A decimal digit is not a sign. -/
theorem IsDigit.isDigit {c : Char} {digit : Nat} (h : IsDigit 10 c digit) : c.isDigit := by
  obtain ⟨hdigit, hchar⟩ := h
  rcases hchar with rfl | rfl <;> revert digit <;> decide

/-- No digit is a sign. -/
theorem IsDigit.ne_sign {radix : Nat} {c : Char} {digit : Nat} (hradix : radix ≤ 16)
    (h : IsDigit radix c digit) : c ≠ '+' ∧ c ≠ '-' := by
  obtain ⟨hdigit, hchar⟩ := h
  have hbound : digit < 16 := by omega
  clear hdigit
  rcases hchar with rfl | rfl <;> revert digit <;> decide

/-! ## Runs of digits -/

/-- A run of at least one digit, and its positional value. -/
def Run (radix : Nat) (cs : List Char) (value : Nat) : Prop :=
  cs ≠ [] ∧ ∃ ds, List.Forall₂ (IsDigit radix) cs ds ∧ value = Nat.ofDigits radix ds.reverse

/-- The value of digits that follow others. -/
theorem ofDigits_reverse_cons (radix digit : Nat) (ds : List Nat) :
    Nat.ofDigits radix (digit :: ds).reverse =
      digit * radix ^ ds.length + Nat.ofDigits radix ds.reverse := by
  rw [List.reverse_cons, Nat.ofDigits_append, Nat.ofDigits_singleton, List.length_reverse,
    Nat.mul_comm, Nat.add_comm]

/-- Digits after a value that is within the limit are read exactly when the
whole value is. -/
theorem readDigits_eq_ok_iff {radix limit start value : Nat} {cs : List Char}
    (hradix : radix ≤ 16) (hpos : 0 < radix) (hstart : start ≤ limit) :
    readDigits radix limit start cs = .ok value ↔
      ∃ ds, List.Forall₂ (IsDigit radix) cs ds ∧
        value = start * radix ^ ds.length + Nat.ofDigits radix ds.reverse ∧ value ≤ limit := by
  induction cs generalizing start with
  | nil =>
      rw [readDigits]
      constructor
      · intro h
        obtain rfl := Except.ok.inj h
        exact ⟨[], .nil, by simp, hstart⟩
      · rintro ⟨ds, hds, hvalue, -⟩
        obtain rfl := List.forall₂_nil_left_iff.mp hds
        rw [hvalue]
        simp
  | cons c cs ih =>
      rw [readDigits]
      cases hdigit : digitValue? radix c with
      | none =>
          constructor
          · intro h
            contradiction
          · rintro ⟨ds, hds, -, -⟩
            obtain ⟨digit, ds, hhead, -, rfl⟩ := List.forall₂_cons_left_iff.mp hds
            rw [(digitValue?_eq_some_iff hradix).mpr hhead] at hdigit
            contradiction
      | some digit =>
          have hhead := (digitValue?_eq_some_iff hradix).mp hdigit
          have hshift : ∀ ds : List Nat,
              start * radix ^ (digit :: ds).length + Nat.ofDigits radix (digit :: ds).reverse =
                (start * radix + digit) * radix ^ ds.length + Nat.ofDigits radix ds.reverse := by
            intro ds
            rw [ofDigits_reverse_cons, List.length_cons]
            ring
          dsimp only
          split
          · rename_i hover
            constructor
            · intro h
              contradiction
            · rintro ⟨ds, hds, hvalue, hlimit⟩
              obtain ⟨other, ds, hother, -, rfl⟩ := List.forall₂_cons_left_iff.mp hds
              rw [← digitValue?_eq_some_iff hradix, hdigit] at hother
              obtain rfl := Option.some.inj hother
              -- The value only grows with the digits that are left.
              have hgrow : (start * radix + digit) * 1 ≤
                  (start * radix + digit) * radix ^ ds.length :=
                Nat.mul_le_mul_left _ (Nat.one_le_pow _ _ hpos)
              rw [hshift] at hvalue
              omega
          · rename_i hwithin
            rw [ih (by omega)]
            constructor
            · rintro ⟨ds, hds, hvalue, hlimit⟩
              exact ⟨digit :: ds, .cons hhead hds, by rw [hshift, hvalue], hlimit⟩
            · rintro ⟨ds, hds, hvalue, hlimit⟩
              obtain ⟨other, ds, hother, htail, rfl⟩ := List.forall₂_cons_left_iff.mp hds
              rw [← digitValue?_eq_some_iff hradix, hdigit] at hother
              obtain rfl := Option.some.inj hother
              exact ⟨ds, htail, by rw [hvalue, hshift], hlimit⟩

/-- Digits alone are never malformed. -/
theorem readDigits_ne_malformed {radix limit start : Nat} {cs : List Char} {ds : List Nat}
    (hradix : radix ≤ 16) (hds : List.Forall₂ (IsDigit radix) cs ds) :
    readDigits radix limit start cs ≠ .error .malformed := by
  induction hds generalizing start with
  | nil =>
      rw [readDigits]
      simp
  | cons hhead _ ih =>
      rw [readDigits, (digitValue?_eq_some_iff hradix).mpr hhead]
      dsimp only
      split
      · simp
      · exact ih

/-- A run is read exactly when its value is within the limit. -/
theorem readDigits_run_eq_ok_iff {radix limit value : Nat} {cs : List Char} (hradix : radix ≤ 16)
    (hpos : 0 < radix) (hne : cs ≠ []) :
    readDigits radix limit 0 cs = .ok value ↔ Run radix cs value ∧ value ≤ limit := by
  rw [readDigits_eq_ok_iff hradix hpos (Nat.zero_le limit)]
  simp only [Nat.zero_mul, Nat.zero_add]
  constructor
  · rintro ⟨ds, hds, hvalue, hlimit⟩
    exact ⟨⟨hne, ds, hds, hvalue⟩, hlimit⟩
  · rintro ⟨⟨-, ds, hds, hvalue⟩, hlimit⟩
    exact ⟨ds, hds, hvalue, hlimit⟩

/-! ## Runs with a sign -/

/-- A run of digits, with a sign in front or without one. -/
inductive SignedRun (radix : Nat) : List Char → Int → Prop
  | plain {cs : List Char} {value : Nat} (hrun : Run radix cs value) : SignedRun radix cs value
  | plus {cs : List Char} {value : Nat} (hrun : Run radix cs value) :
      SignedRun radix ('+' :: cs) value
  | minus {cs : List Char} {value : Nat} (hrun : Run radix cs value) :
      SignedRun radix ('-' :: cs) (-value)

/-- A value fits in 64 bits with a sign. -/
def Fits (value : Int) : Prop :=
  -(maxValue + 1) ≤ value ∧ value ≤ maxValue

/-- A run begins with a digit. -/
theorem Run.head_ne_sign {radix value : Nat} {c : Char} {cs : List Char} (hradix : radix ≤ 16)
    (h : Run radix (c :: cs) value) : c ≠ '+' ∧ c ≠ '-' := by
  obtain ⟨-, ds, hds, -⟩ := h
  obtain ⟨digit, rest, hhead, -, -⟩ := List.forall₂_cons_left_iff.mp hds
  exact hhead.ne_sign hradix

/-- What is done to a value that was read makes no fault. -/
theorem map_ne_error {α β : Type} {f : α → β} {read : Except Fault α} {fault : Fault}
    (h : read ≠ .error fault) : read.map f ≠ .error fault := by
  cases read with
  | error other => simpa [Except.map] using h
  | ok value => simp [Except.map]

theorem map_ofNat_eq_ok_iff {read : Except Fault Nat} {value : Int} :
    read.map Int.ofNat = .ok value ↔ ∃ n : Nat, read = .ok n ∧ value = n := by
  cases read with
  | error fault => simp [Except.map]
  | ok n => simp [Except.map, eq_comm]

/-- A run without a sign is read as its value. -/
theorem readSigned_plain_iff {radix : Nat} {cs : List Char} {value : Int} (hradix : radix ≤ 16)
    (hpos : 0 < radix) (hne : cs ≠ []) :
    (readDigits radix maxValue 0 cs).map Int.ofNat = .ok value ↔
      ∃ n : Nat, Run radix cs n ∧ value = n ∧ Fits value := by
  rw [map_ofNat_eq_ok_iff]
  constructor
  · rintro ⟨n, hread, rfl⟩
    obtain ⟨hrun, hlimit⟩ := (readDigits_run_eq_ok_iff hradix hpos hne).mp hread
    exact ⟨n, hrun, rfl, by unfold Fits; omega⟩
  · rintro ⟨n, hrun, rfl, hfits⟩
    have hlimit : n ≤ maxValue := Int.ofNat_le.mp hfits.2
    exact ⟨n, (readDigits_run_eq_ok_iff hradix hpos hne).mpr ⟨hrun, hlimit⟩, rfl⟩

/-- A run with a sign or without one is read exactly when its value fits. -/
theorem readSigned_eq_ok_iff {radix : Nat} {cs : List Char} {value : Int} (hradix : radix ≤ 16)
    (hpos : 0 < radix) :
    readSigned radix cs = .ok value ↔ SignedRun radix cs value ∧ Fits value := by
  unfold readSigned
  split
  · constructor
    · intro h
      contradiction
    · rintro ⟨⟨hrun⟩, -⟩
      exact absurd rfl hrun.1
  · constructor
    · intro h
      contradiction
    · rintro ⟨⟨hrun⟩ | ⟨hrun⟩, -⟩
      · exact absurd rfl (hrun.head_ne_sign hradix).1
      · exact absurd rfl hrun.1
  · constructor
    · intro h
      contradiction
    · rintro ⟨⟨hrun⟩ | _ | ⟨hrun⟩, -⟩
      · exact absurd rfl (hrun.head_ne_sign hradix).2
      · exact absurd rfl hrun.1
  · rename_i rest hne
    rw [readSigned_plain_iff hradix hpos (by simpa using hne)]
    constructor
    · rintro ⟨n, hrun, rfl, hfits⟩
      exact ⟨.plus hrun, hfits⟩
    · rintro ⟨⟨hrun⟩ | ⟨hrun⟩, hfits⟩
      · exact absurd rfl (hrun.head_ne_sign hradix).1
      · exact ⟨_, hrun, rfl, hfits⟩
  · rename_i rest hne
    have hrest : rest ≠ [] := by simpa using hne
    constructor
    · intro h
      split at h
      · rename_i n hread
        obtain ⟨hrun, hlimit⟩ := (readDigits_run_eq_ok_iff hradix hpos hrest).mp hread
        obtain rfl : -(n : Int) = value := Except.ok.inj h
        exact ⟨.minus hrun, by unfold Fits; omega⟩
      · contradiction
    · rintro ⟨⟨hrun⟩ | _ | ⟨hrun⟩, hfits⟩
      · exact absurd rfl (hrun.head_ne_sign hradix).2
      · rename_i n
        have hlimit : n ≤ maxValue + 1 := by
          have hlow := hfits.1
          omega
        rw [(readDigits_run_eq_ok_iff hradix hpos hrest).mpr ⟨hrun, hlimit⟩]
  · rename_i hnil _ _ hplus hminus
    rw [readSigned_plain_iff hradix hpos hnil]
    constructor
    · rintro ⟨n, hrun, rfl, hfits⟩
      exact ⟨.plain hrun, hfits⟩
    · rintro ⟨⟨hrun⟩ | _ | _, hfits⟩
      · exact ⟨_, hrun, rfl, hfits⟩
      · exact absurd rfl (hplus _)
      · exact absurd rfl (hminus _)

/-! ## Marks of a radix -/

/-- The mark in front of digits that are not decimal. -/
inductive Mark : Nat → List Char → Prop
  | hexadecimal {letter : Char} (hletter : letter = 'x' ∨ letter = 'X') : Mark 16 ['0', letter]
  | octal {letter : Char} (hletter : letter = 'o' ∨ letter = 'O') : Mark 8 ['0', letter]
  | binary {letter : Char} (hletter : letter = 'b' ∨ letter = 'B') : Mark 2 ['0', letter]

/-- A text does not begin with the mark of a radix. -/
def IsUnmarked (cs : List Char) : Prop :=
  ∀ radix mark body, Mark radix mark → cs ≠ mark ++ body

/-- The radices with a mark lie between two and sixteen, and ten is not among them. -/
theorem Mark.radix_bounds {radix : Nat} {mark : List Char} (h : Mark radix mark) :
    1 < radix ∧ radix ≤ 16 ∧ radix ≠ 10 := by
  cases h <;> decide

/-- A text with a mark is split after it. -/
theorem splitRadix_of_mark {radix : Nat} {mark : List Char} (h : Mark radix mark)
    (body : List Char) : splitRadix (mark ++ body) = (radix, body) := by
  cases h with
  | hexadecimal hletter => rcases hletter with rfl | rfl <;> rfl
  | octal hletter => rcases hletter with rfl | rfl <;> rfl
  | binary hletter => rcases hletter with rfl | rfl <;> rfl

/-- A text without a mark is decimal. -/
theorem splitRadix_of_isUnmarked {cs : List Char} (h : IsUnmarked cs) :
    splitRadix cs = (10, cs) := by
  unfold splitRadix
  split
  · exact absurd rfl (h 16 ['0', 'x'] _ (.hexadecimal (Or.inl rfl)))
  · exact absurd rfl (h 16 ['0', 'X'] _ (.hexadecimal (Or.inr rfl)))
  · exact absurd rfl (h 8 ['0', 'o'] _ (.octal (Or.inl rfl)))
  · exact absurd rfl (h 8 ['0', 'O'] _ (.octal (Or.inr rfl)))
  · exact absurd rfl (h 2 ['0', 'b'] _ (.binary (Or.inl rfl)))
  · exact absurd rfl (h 2 ['0', 'B'] _ (.binary (Or.inr rfl)))
  · rfl

/-- A text with a mark is not made of decimal digits alone. -/
theorem Mark.not_isDigit {radix : Nat} {mark body : List Char} (h : Mark radix mark) :
    ¬ (mark ++ body).all Char.isDigit := by
  cases h with
  | hexadecimal hletter => rcases hletter with rfl | rfl <;> simp
  | octal hletter => rcases hletter with rfl | rfl <;> simp
  | binary hletter => rcases hletter with rfl | rfl <;> simp

/-! ## Literals -/

/-- A text is an integer literal of the given value. -/
inductive Denotes (text : String) : Int → Prop
  | decimal {value : Nat} (hrun : Run 10 (digits text) value) : Denotes text value
  | marked {radix : Nat} {mark body : List Char} {value : Int} (hmark : Mark radix mark)
      (hdigits : digits text = mark ++ body) (hrun : SignedRun radix body value) :
      Denotes text value

/-- A text is a number of the source language: decimal digits, the digits of
another radix after its mark, or a number with a fraction, an exponent or an
imaginary unit, which has a character that is no digit. -/
inductive IsNumeral (text : String) : Prop
  | decimal {value : Nat} (hrun : Run 10 (digits text) value)
  | marked {radix : Nat} {mark body : List Char} {value : Nat} (hmark : Mark radix mark)
      (hdigits : digits text = mark ++ body) (hrun : Run radix body value)
  | fractional (hunmarked : IsUnmarked (digits text)) (hletter : ¬ (digits text).all Char.isDigit)

/-- A marked text is read in the radix of its mark. -/
theorem value?_of_mark {text : String} {radix : Nat} {mark body : List Char}
    (hmark : Mark radix mark) (hdigits : digits text = mark ++ body) :
    value? text = (readSigned radix body).map Int64.ofInt := by
  have hradix : (radix == 10) = false := by simpa using hmark.radix_bounds.2.2
  rw [value?, hdigits, splitRadix_of_mark hmark]
  simp [hradix]

/-- A text without a mark is decimal digits or no integer. -/
theorem value?_of_isUnmarked {text : String} (h : IsUnmarked (digits text)) :
    value? text =
      if (digits text).all Char.isDigit then (readSigned 10 (digits text)).map Int64.ofInt
      else .error .notInteger := by
  rw [value?, splitRadix_of_isUnmarked h]
  cases hdigits : (digits text).all Char.isDigit with
  | true => simp [hdigits]
  | false => simp [hdigits]

/-- A decimal run has decimal digits only. -/
theorem Run.all_isDigit {cs : List Char} {value : Nat} (h : Run 10 cs value) :
    cs.all Char.isDigit := by
  obtain ⟨-, ds, hds, -⟩ := h
  rw [List.all_eq_true]
  induction hds with
  | nil => simp
  | cons hhead _ ih =>
      intro c hc
      rcases List.mem_cons.mp hc with rfl | hc
      · exact hhead.isDigit
      · exact ih c hc

/-- Decimal digits do not begin with a mark. -/
theorem Run.isUnmarked {cs : List Char} {value : Nat} (h : Run 10 cs value) : IsUnmarked cs := by
  rintro radix mark body hmark rfl
  exact hmark.not_isDigit h.all_isDigit

/-- A run with a sign that has decimal digits only is a run. -/
theorem SignedRun.exists_run {radix : Nat} {cs : List Char} {value : Int}
    (h : SignedRun radix cs value) (hdigits : cs.all Char.isDigit) :
    ∃ n : Nat, Run radix cs n ∧ value = n := by
  cases h with
  | plain hrun => exact ⟨_, hrun, rfl⟩
  | plus hrun => simp at hdigits
  | minus hrun => simp at hdigits

theorem map_ofInt_eq_ok_iff {read : Except Fault Int} {v : Int64} :
    read.map Int64.ofInt = .ok v ↔ ∃ value, read = .ok value ∧ v = Int64.ofInt value := by
  cases read with
  | error fault => simp [Except.map]
  | ok value => simp [Except.map, eq_comm]

/-- A text has a value exactly when it is an integer literal whose value fits. -/
theorem value?_eq_ok_iff {text : String} {v : Int64} :
    value? text = .ok v ↔ ∃ value, Denotes text value ∧ Fits value ∧ v = Int64.ofInt value := by
  by_cases hunmarked : IsUnmarked (digits text)
  · rw [value?_of_isUnmarked hunmarked]
    constructor
    · intro h
      split at h
      · rename_i hdigits
        obtain ⟨value, hread, hv⟩ := map_ofInt_eq_ok_iff.mp h
        obtain ⟨hsigned, hfits⟩ := (readSigned_eq_ok_iff (by decide) (by decide)).mp hread
        obtain ⟨n, hrun, rfl⟩ := hsigned.exists_run hdigits
        exact ⟨n, .decimal hrun, hfits, hv⟩
      · contradiction
    · rintro ⟨value, hdenotes, hfits, hv⟩
      cases hdenotes with
      | decimal hrun =>
          rw [if_pos hrun.all_isDigit, map_ofInt_eq_ok_iff]
          exact ⟨_, (readSigned_eq_ok_iff (by decide) (by decide)).mpr ⟨.plain hrun, hfits⟩, hv⟩
      | marked hmark hdigits hrun => exact absurd hdigits (hunmarked _ _ _ hmark)
  · unfold IsUnmarked at hunmarked
    push Not at hunmarked
    obtain ⟨radix, mark, body, hmark, hdigits⟩ := hunmarked
    obtain ⟨hpos, hradix, -⟩ := hmark.radix_bounds
    rw [value?_of_mark hmark hdigits, map_ofInt_eq_ok_iff]
    constructor
    · rintro ⟨value, hread, hv⟩
      obtain ⟨hsigned, hfits⟩ := (readSigned_eq_ok_iff hradix (by omega)).mp hread
      exact ⟨value, .marked hmark hdigits hsigned, hfits, hv⟩
    · rintro ⟨value, hdenotes, hfits, hv⟩
      cases hdenotes with
      | decimal hrun => exact absurd hdigits (hrun.isUnmarked _ _ _ hmark)
      | @marked radix' mark' body' _ hmark' hdigits' hrun =>
          have hsplit := splitRadix_of_mark hmark' body'
          rw [← hdigits', hdigits, splitRadix_of_mark hmark] at hsplit
          obtain ⟨rfl, rfl⟩ := Prod.mk.inj hsplit
          exact ⟨value, (readSigned_eq_ok_iff hradix (by omega)).mpr ⟨hrun, hfits⟩, hv⟩

/-- Digits without a sign are never malformed. -/
theorem readSigned_ne_malformed {radix value : Nat} {cs : List Char} (hradix : radix ≤ 16)
    (h : Run radix cs value) : readSigned radix cs ≠ .error .malformed := by
  obtain ⟨-, ds, hds, -⟩ := id h
  unfold readSigned
  split
  · exact absurd rfl h.1
  · exact absurd rfl (h.head_ne_sign hradix).1
  · exact absurd rfl (h.head_ne_sign hradix).2
  · exact absurd rfl (h.head_ne_sign hradix).1
  · exact absurd rfl (h.head_ne_sign hradix).2
  · exact map_ne_error (readDigits_ne_malformed hradix hds)

/-- A number of the source language is never malformed. -/
theorem value?_ne_malformed {text : String} (h : IsNumeral text) :
    value? text ≠ .error .malformed := by
  cases h with
  | decimal hrun =>
      rw [value?_of_isUnmarked hrun.isUnmarked, if_pos hrun.all_isDigit]
      exact map_ne_error (readSigned_ne_malformed (by decide) hrun)
  | marked hmark hdigits hrun =>
      rw [value?_of_mark hmark hdigits]
      exact map_ne_error (readSigned_ne_malformed hmark.radix_bounds.2.1 hrun)
  | fractional hunmarked hletter =>
      rw [value?_of_isUnmarked hunmarked, if_neg hletter]
      simp

end IntegerLiteral
end ScriptLowering
