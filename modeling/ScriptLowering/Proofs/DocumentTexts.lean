import ScriptLowering.Json
import ScriptLowering.Text.Words

/-!
# Documents by their texts

The compact text of a document determines the document.  Texts are compared in
front of further text, so that equal texts can be cut off piece by piece: a
piece says by itself where it ends.  Only an integer does not; it ends where no
digit follows, and what follows a document inside another one is never a digit.

Main results:

- Theorem `Json.unescape?_escapeChar`: an escaped character is read back.
- Theorem `Json.quote_append_inj`: a string literal determines its text and its
  end.
- Theorem `Json.separated_append_inj`: so does a row of pieces with commas
  between them and a bracket behind them.
- Theorem `Json.readsBack`: the text of a document determines the document and
  its end.
- Theorem `Json.text_inj`: documents with one text are equal.
-/

namespace ScriptLowering
namespace Json

/-! ## Induction over documents -/

/-- What holds of truth values, integers and strings, and of an array or an
object whenever it holds of all documents in it, holds of every document. -/
@[elab_as_elim]
theorem inductionOnParts {motive : Json → Prop}
    (boolean : ∀ value, motive (.boolean value)) (integer : ∀ value, motive (.integer value))
    (string : ∀ text, motive (.string text))
    (array : ∀ items, (∀ item ∈ items, motive item) → motive (.array items))
    (object : ∀ members, (∀ member ∈ members, motive member.2) → motive (.object members))
    (document : Json) : motive document := by
  refine @Json.rec motive (fun items => ∀ item ∈ items, motive item)
    (fun members => ∀ member ∈ members, motive member.2) (fun member => motive member.2)
    boolean integer string array object ?_ ?_ ?_ ?_ ?_ document
  · nofun
  · intro first rest hfirst hrest
    exact List.forall_mem_cons.mpr ⟨hfirst, hrest⟩
  · nofun
  · intro first rest hfirst hrest
    exact List.forall_mem_cons.mpr ⟨hfirst, hrest⟩
  · intro key value hvalue
    exact hvalue

/-! ## String literals -/

/-- The number below sixteen that a digit stands for. -/
def hexValue (digit : Char) : Nat :=
  "0123456789abcdef".toList.idxOf digit

/-- The first character inside a string literal, and what follows it; there is
none at the closing quote. -/
def unescape? : List Char → Option (Char × List Char)
  | '\\' :: 'u' :: '0' :: '0' :: high :: low :: rest =>
    some (Char.ofNat (16 * hexValue high + hexValue low), rest)
  | '\\' :: 'b' :: rest => some ('\x08', rest)
  | '\\' :: 'f' :: rest => some ('\x0c', rest)
  | '\\' :: 'n' :: rest => some ('\n', rest)
  | '\\' :: 'r' :: rest => some ('\r', rest)
  | '\\' :: 't' :: rest => some ('\t', rest)
  | '\\' :: c :: rest => some (c, rest)
  | '"' :: _ => none
  | c :: rest => some (c, rest)
  | [] => none

/-- A character without an escape stands for itself. -/
theorem unescape?_cons {c : Char} (hquote : c ≠ '"') (hbackslash : c ≠ '\\') (rest : List Char) :
    unescape? (c :: rest) = some (c, rest) := by
  unfold unescape?
  split <;> simp_all

/-- Two digits write every number below thirty-two. -/
theorem hexValue_hexDigit :
    ∀ n < 32, 16 * hexValue (hexDigit (n / 16)) + hexValue (hexDigit (n % 16)) = n := by
  decide

/-- An escaped character is read back. -/
theorem unescape?_escapeChar (c : Char) (rest : List Char) :
    unescape? (escapeChar c ++ rest) = some (c, rest) := by
  unfold escapeChar
  split
  iterate 7 rfl
  rename_i hquote hbackslash _ _ _ _ _
  split
  · rename_i hcontrol
    change some (Char.ofNat _, rest) = _
    rw [hexValue_hexDigit c.toNat hcontrol, Char.ofNat_toNat]
  · exact unescape?_cons hquote hbackslash rest

/-- Escaped characters before the closing quote determine the characters and
what follows the quote. -/
theorem flatMap_escapeChar_append_inj {cs ds r s : List Char}
    (h : cs.flatMap escapeChar ++ '"' :: r = ds.flatMap escapeChar ++ '"' :: s) :
    cs = ds ∧ r = s := by
  induction cs generalizing ds with
  | nil =>
      cases ds with
      | nil => exact ⟨rfl, (List.cons.inj h).2⟩
      | cons d ds =>
          rw [List.flatMap_cons, List.append_assoc] at h
          have hread := congrArg unescape? h
          rw [unescape?_escapeChar] at hread
          contradiction
  | cons c cs ih =>
      rw [List.flatMap_cons, List.append_assoc] at h
      have hread := congrArg unescape? h
      rw [unescape?_escapeChar] at hread
      cases ds with
      | nil => contradiction
      | cons d ds =>
          rw [List.flatMap_cons, List.append_assoc, unescape?_escapeChar] at hread
          obtain ⟨rfl, hrest⟩ := Prod.mk.inj (Option.some.inj hread)
          obtain ⟨rfl, rfl⟩ := ih hrest
          exact ⟨rfl, rfl⟩

/-- A quoted text is its characters, escaped one by one, between quotation marks. -/
theorem toList_quote (text : String) :
    (quote text).toList = '"' :: (text.toList.flatMap escapeChar ++ ['"']) := by
  simp [quote]

/-- A string literal determines its text and what follows it. -/
theorem quote_append_inj {text other : String} {r s : List Char}
    (h : (quote text).toList ++ r = (quote other).toList ++ s) : text = other ∧ r = s := by
  rw [toList_quote, toList_quote, List.cons_append, List.cons_append, List.append_assoc,
    List.append_assoc] at h
  obtain ⟨htext, hrest⟩ := flatMap_escapeChar_append_inj (List.cons.inj h).2
  exact ⟨String.toList_inj.mp htext, hrest⟩

/-! ## Integers -/

/-- A text ends the integer before it: it does not begin with a digit. -/
def EndsInteger (rest : List Char) : Prop :=
  ∀ c ∈ rest.head?, ¬ c.isDigit

theorem endsInteger_nil : EndsInteger [] :=
  nofun

theorem endsInteger_cons {c : Char} (h : ¬ c.isDigit) (rest : List Char) :
    EndsInteger (c :: rest) := by
  intro d hd
  obtain rfl := Option.some.inj hd
  exact h

/-- The decimal digits of a number are digits. -/
theorem isDigit_of_mem_toDigits {n : Nat} {c : Char} (h : c ∈ Nat.toDigits 10 n) : c.isDigit :=
  Nat.isDigit_of_mem_toDigits (by decide) (by decide) h

/-- The digits of a number determine the number and what follows them. -/
theorem toDigits_append_inj {m n : Nat} {r s : List Char} (hr : EndsInteger r)
    (hs : EndsInteger s) (h : Nat.toDigits 10 m ++ r = Nat.toDigits 10 n ++ s) :
    m = n ∧ r = s := by
  obtain ⟨hdigits, hrest⟩ := Text.run_append_inj (fun _ => isDigit_of_mem_toDigits)
    (fun _ => isDigit_of_mem_toDigits) hr hs h
  refine ⟨?_, hrest⟩
  calc
    m = Nat.ofDigitChars 10 (Nat.toDigits 10 m) 0 := Nat.ofDigitChars_ten_toDigits.symm
    _ = Nat.ofDigitChars 10 (Nat.toDigits 10 n) 0 := by rw [hdigits]
    _ = n := Nat.ofDigitChars_ten_toDigits

/-- A minus sign is not the first digit of a number. -/
theorem minus_cons_ne_toDigits_append (m : Nat) (r s : List Char) :
    '-' :: r ≠ Nat.toDigits 10 m ++ s := by
  intro h
  cases hdigits : Nat.toDigits 10 m with
  | nil => exact Nat.toDigits_ne_nil hdigits
  | cons d ds =>
      rw [hdigits] at h
      obtain ⟨rfl, -⟩ := List.cons.inj h
      have hdigit : '-'.isDigit := isDigit_of_mem_toDigits (hdigits ▸ List.mem_cons_self)
      contradiction

/-- The text of a natural number is its decimal digits. -/
theorem toList_toString_ofNat (m : Nat) :
    (toString (Int.ofNat m)).toList = Nat.toDigits 10 m :=
  Nat.toList_repr

/-- The text of a negative number is a minus sign and the digits of its absolute value. -/
theorem toList_toString_negSucc (m : Nat) :
    (toString (Int.negSucc m)).toList = '-' :: Nat.toDigits 10 (m + 1) := by
  have htext : toString (Int.negSucc m) = "-" ++ Nat.repr (m + 1) := rfl
  rw [htext, String.toList_append, Nat.toList_repr]
  rfl

/-- The text of an integer determines the integer and what follows it. -/
theorem toString_append_inj {m n : Int} {r s : List Char} (hr : EndsInteger r)
    (hs : EndsInteger s) (h : (toString m).toList ++ r = (toString n).toList ++ s) :
    m = n ∧ r = s := by
  cases m with
  | ofNat m =>
      rw [toList_toString_ofNat] at h
      cases n with
      | ofNat n =>
          rw [toList_toString_ofNat] at h
          obtain ⟨rfl, hrest⟩ := toDigits_append_inj hr hs h
          exact ⟨rfl, hrest⟩
      | negSucc n =>
          rw [toList_toString_negSucc] at h
          exact absurd h.symm (minus_cons_ne_toDigits_append _ _ _)
  | negSucc m =>
      rw [toList_toString_negSucc] at h
      cases n with
      | ofNat n =>
          rw [toList_toString_ofNat] at h
          exact absurd h (minus_cons_ne_toDigits_append _ _ _)
      | negSucc n =>
          rw [toList_toString_negSucc] at h
          obtain ⟨hnumber, hrest⟩ := toDigits_append_inj hr hs (List.cons.inj h).2
          exact ⟨congrArg Int.negSucc (Nat.succ.inj hnumber), hrest⟩

/-! ## Rows with commas -/

section Rows

variable {α : Type}

/-- A piece is read back from its text: no other piece has that text, and the text
says where it ends. -/
def ReadsBack (write : α → List Char) (x : α) : Prop :=
  ∀ y r s, EndsInteger r → EndsInteger s → write x ++ r = write y ++ s → x = y ∧ r = s

/-- The texts of pieces with commas between them. -/
def separated (write : α → List Char) : List α → List Char
  | [] => []
  | x :: rest => write x ++ rest.flatMap fun y => ',' :: write y

variable {write : α → List Char} {bracket : Char}

/-- The pieces after the first one end the integer before them. -/
theorem endsInteger_commas (hbracket : ¬ bracket.isDigit) (rest : List α) (r : List Char) :
    EndsInteger ((rest.flatMap fun y => ',' :: write y) ++ bracket :: r) := by
  cases rest with
  | nil => exact endsInteger_cons hbracket r
  | cons x rest => exact endsInteger_cons (by decide) _

/-- Pieces behind commas, up to a bracket, are read back from their text. -/
theorem commas_append_inj (hbracket : ¬ bracket.isDigit) (hcomma : bracket ≠ ',') {xs ys : List α}
    {r s : List Char} (hxs : ∀ x ∈ xs, ReadsBack write x)
    (h : (xs.flatMap fun x => ',' :: write x) ++ bracket :: r =
      (ys.flatMap fun y => ',' :: write y) ++ bracket :: s) : xs = ys ∧ r = s := by
  induction xs generalizing ys with
  | nil =>
      cases ys with
      | nil => exact ⟨rfl, (List.cons.inj h).2⟩
      | cons y ys => exact absurd (List.cons.inj h).1 hcomma
  | cons x xs ih =>
      cases ys with
      | nil => exact absurd (List.cons.inj h).1.symm hcomma
      | cons y ys =>
          rw [List.flatMap_cons, List.flatMap_cons, List.append_assoc, List.append_assoc,
            List.cons_append, List.cons_append] at h
          obtain ⟨rfl, hrest⟩ := hxs x (by simp) y _ _ (endsInteger_commas hbracket xs r)
            (endsInteger_commas hbracket ys s) (List.cons.inj h).2
          obtain ⟨rfl, rfl⟩ := ih (fun z hz => hxs z (List.mem_cons_of_mem _ hz)) hrest
          exact ⟨rfl, rfl⟩

/-- Pieces with commas between them and a bracket behind them, none of which
begins with the bracket, determine the pieces and what follows the bracket. -/
theorem separated_append_inj (hbracket : ¬ bracket.isDigit) (hcomma : bracket ≠ ',')
    (hopen : ∀ x, ∃ c rest, write x = c :: rest ∧ c ≠ bracket) {xs ys : List α} {r s : List Char}
    (hxs : ∀ x ∈ xs, ReadsBack write x)
    (h : separated write xs ++ bracket :: r = separated write ys ++ bracket :: s) :
    xs = ys ∧ r = s := by
  -- A row without pieces begins with the bracket, and no other row does.
  have hne : ∀ x (t u : List Char), bracket :: t ≠ write x ++ u := by
    intro x t u heq
    obtain ⟨c, rest, hwrite, hc⟩ := hopen x
    rw [hwrite] at heq
    exact hc (List.cons.inj heq).1.symm
  cases xs with
  | nil =>
      cases ys with
      | nil => exact ⟨rfl, (List.cons.inj h).2⟩
      | cons y ys =>
          rw [separated, separated, List.append_assoc] at h
          exact absurd h (hne y _ _)
  | cons x xs =>
      cases ys with
      | nil =>
          rw [separated, separated, List.append_assoc] at h
          exact absurd h.symm (hne x _ _)
      | cons y ys =>
          rw [separated, separated, List.append_assoc, List.append_assoc] at h
          obtain ⟨rfl, hrest⟩ := hxs x (by simp) y _ _ (endsInteger_commas hbracket xs r)
            (endsInteger_commas hbracket ys s) h
          obtain ⟨rfl, rfl⟩ := commas_append_inj hbracket hcomma
            (fun z hz => hxs z (List.mem_cons_of_mem _ hz)) hrest
          exact ⟨rfl, rfl⟩

end Rows

/-! ## Documents -/

/-- The text of a document, character by character. -/
def chars (document : Json) : List Char :=
  document.text.toList

/-- The text of a member of an object. -/
def memberChars (member : String × Json) : List Char :=
  (quote member.1).toList ++ ':' :: member.2.chars

/-- The text of the items of an array has commas between them. -/
theorem toList_itemsText (items : List Json) :
    (itemsText items).toList = separated chars items := by
  match items with
  | [] => rfl
  | [item] => simp [itemsText, separated, chars]
  | item :: next :: rest =>
      have hrest := toList_itemsText (next :: rest)
      rw [separated] at hrest
      simp [itemsText, separated, hrest, chars]

/-- The text of the members of an object has commas between them. -/
theorem toList_membersText (members : List (String × Json)) :
    (membersText members).toList = separated memberChars members := by
  match members with
  | [] => rfl
  | [(key, value)] => simp [membersText, separated, memberChars, chars]
  | (key, value) :: next :: rest =>
      have hrest := toList_membersText (next :: rest)
      rw [separated] at hrest
      simp [membersText, separated, hrest, memberChars, chars]

/-- The text of an array is that of its items between square brackets. -/
theorem chars_array (items : List Json) :
    (array items).chars = '[' :: (separated chars items ++ [']']) := by
  rw [chars, text, String.toList_append, String.toList_append, toList_itemsText]
  rfl

theorem chars_object (members : List (String × Json)) :
    (object members).chars = '\x7b' :: (separated memberChars members ++ ['\x7d']) := by
  rw [chars, text, String.toList_append, String.toList_append, toList_membersText]
  rfl

/-- The kinds of documents. -/
inductive Kind where
  | boolean | integer | string | array | object

/-- The kind of a document. -/
def kind : Json → Kind
  | .boolean _ => .boolean
  | .integer _ => .integer
  | .string _ => .string
  | .array _ => .array
  | .object _ => .object

/-- The kind of documents whose text begins with a character. -/
def kindOf? (c : Char) : Option Kind :=
  if c = 't' ∨ c = 'f' then some .boolean
  else if c = '"' then some .string
  else if c = '[' then some .array
  else if c = '\x7b' then some .object
  else if c = '-' ∨ c.isDigit then some .integer
  else none

theorem kindOf?_of_isDigit {c : Char} (h : c.isDigit) : kindOf? c = some .integer := by
  have hother : ∀ d : Char, ¬ d.isDigit → c ≠ d := by
    rintro d hd rfl
    exact hd h
  simp [kindOf?, h, hother]

/-- A document begins with a character that tells its kind. -/
theorem exists_chars_eq_cons (document : Json) :
    ∃ c rest, document.chars = c :: rest ∧ kindOf? c = some document.kind := by
  cases document with
  | boolean value => cases value <;> exact ⟨_, _, rfl, rfl⟩
  | integer value =>
      cases value with
      | ofNat n =>
          cases hdigits : Nat.toDigits 10 n with
          | nil => exact absurd hdigits Nat.toDigits_ne_nil
          | cons c rest =>
              have hdigit : c.isDigit := isDigit_of_mem_toDigits (hdigits ▸ List.mem_cons_self)
              exact ⟨c, rest, (toList_toString_ofNat n).trans hdigits, kindOf?_of_isDigit hdigit⟩
      | negSucc n => exact ⟨_, _, toList_toString_negSucc n, rfl⟩
  | string text => exact ⟨_, _, toList_quote text, rfl⟩
  | array items => exact ⟨_, _, chars_array items, rfl⟩
  | object members => exact ⟨_, _, chars_object members, rfl⟩

/-- No document begins with a closing bracket. -/
theorem exists_chars_ne (document : Json) :
    ∃ c rest, document.chars = c :: rest ∧ c ≠ ']' := by
  obtain ⟨c, rest, hchars, hkind⟩ := document.exists_chars_eq_cons
  refine ⟨c, rest, hchars, ?_⟩
  rintro rfl
  nomatch hkind

/-- Documents of different kinds do not have a text in common. -/
theorem kind_eq_of_chars_append {document other : Json} {r s : List Char}
    (h : document.chars ++ r = other.chars ++ s) : document.kind = other.kind := by
  obtain ⟨c, rest, hchars, hkind⟩ := document.exists_chars_eq_cons
  obtain ⟨d, rest', hchars', hkind'⟩ := other.exists_chars_eq_cons
  rw [hchars, hchars'] at h
  obtain ⟨rfl, -⟩ := List.cons.inj h
  exact Option.some.inj (hkind.symm.trans hkind')

/-- A member of an object is read back when its value is. -/
theorem ReadsBack.member {key : String} {value : Json} (h : ReadsBack chars value) :
    ReadsBack memberChars (key, value) := by
  rintro ⟨otherKey, other⟩ r s hr hs heq
  rw [memberChars, memberChars, List.append_assoc, List.append_assoc] at heq
  obtain ⟨rfl, hvalues⟩ := quote_append_inj heq
  obtain ⟨rfl, hrest⟩ := h other r s hr hs (List.cons.inj hvalues).2
  exact ⟨rfl, hrest⟩

/-- The text of a document determines the document and what follows it. -/
theorem readsBack (document : Json) : ReadsBack chars document := by
  -- The other document is of the same kind, since both texts begin with one character.
  induction document using inductionOnParts with
  | boolean value =>
      intro other r s _ _ h
      cases other with
      | boolean other => cases value <;> cases other <;> simp_all [chars, text]
      | _ => nomatch kind_eq_of_chars_append h
  | integer value =>
      intro other r s hr hs h
      cases other with
      | integer other =>
          obtain ⟨rfl, hrest⟩ := toString_append_inj hr hs h
          exact ⟨rfl, hrest⟩
      | _ => nomatch kind_eq_of_chars_append h
  | string text =>
      intro other r s _ _ h
      cases other with
      | string other =>
          obtain ⟨rfl, hrest⟩ := quote_append_inj h
          exact ⟨rfl, hrest⟩
      | _ => nomatch kind_eq_of_chars_append h
  | array items ih =>
      intro other r s _ _ h
      cases other with
      | array others =>
          rw [chars_array, chars_array, List.cons_append, List.cons_append, List.append_assoc,
            List.append_assoc] at h
          obtain ⟨rfl, hrest⟩ := separated_append_inj (by decide) (by decide)
            exists_chars_ne ih (List.cons.inj h).2
          exact ⟨rfl, hrest⟩
      | _ => nomatch kind_eq_of_chars_append h
  | object members ih =>
      intro other r s _ _ h
      cases other with
      | object others =>
          rw [chars_object, chars_object, List.cons_append, List.cons_append, List.append_assoc,
            List.append_assoc] at h
          obtain ⟨rfl, hrest⟩ := separated_append_inj (by decide) (by decide)
            (fun member => ⟨_, _, by rw [memberChars, toList_quote, List.cons_append], by decide⟩)
            (fun member hmember => (ih member hmember).member) (List.cons.inj h).2
          exact ⟨rfl, hrest⟩
      | _ => nomatch kind_eq_of_chars_append h

/-- Documents with one text are equal. -/
theorem text_inj {document other : Json} : document.text = other.text ↔ document = other := by
  refine ⟨fun h => ?_, congrArg text⟩
  have hchars : document.chars ++ [] = other.chars ++ [] := by rw [chars, chars, h]
  exact (document.readsBack other [] [] endsInteger_nil endsInteger_nil hchars).1

end Json
end ScriptLowering
