import Mathlib.Data.List.DropRight
import ScriptLowering.Text.Slice

/-!
# The bytes of a text

Offsets into a text count bytes, and may fall inside a character.  A line break is
the only character with the byte of a line break in its encoding, so lines can be
told apart byte by byte.

Main results:

- `bytes_eq_encode`: the bytes of a text are those of its characters.
- `count_encode`: line breaks can be counted among bytes or among characters.
- `rdropWhile_encode`: the bytes up to the last line break.
-/

namespace ScriptLowering
namespace Text

/-- The byte of a line break. -/
def lineBreak : UInt8 := 10

/-- The bytes of characters in their UTF-8 encoding. -/
def encode (cs : List Char) : List UInt8 :=
  cs.flatMap String.utf8EncodeChar

/-- The bytes of a text in its UTF-8 encoding. -/
def bytes (text : String) : List UInt8 :=
  text.toByteArray.data.toList

@[simp]
theorem encode_nil : encode [] = [] :=
  rfl

theorem encode_cons (c : Char) (cs : List Char) :
    encode (c :: cs) = String.utf8EncodeChar c ++ encode cs :=
  rfl

@[simp]
theorem encode_append (as bs : List Char) : encode (as ++ bs) = encode as ++ encode bs :=
  List.flatMap_append

/-- The length of an encoding is the size of what is encoded. -/
@[simp]
theorem length_encode (cs : List Char) : (encode cs).length = byteSize cs := by
  induction cs with
  | nil => rfl
  | cons c cs ih =>
      rw [encode_cons, List.length_append, ih, String.length_utf8EncodeChar, byteSize_cons]

/-- The bytes of a text are the encoding of its characters. -/
theorem bytes_eq_encode (text : String) : bytes text = encode text.toList := by
  rw [bytes, ← String.utf8Encode_toList, List.utf8Encode, List.data_toByteArray, encode]

@[simp]
theorem length_bytes (text : String) : (bytes text).length = text.utf8ByteSize :=
  rfl

/-- A text takes up as many bytes as its characters do. -/
theorem byteSize_toList (text : String) : byteSize text.toList = text.utf8ByteSize := by
  rw [← length_encode, ← bytes_eq_encode, length_bytes]

/-- A text takes as many bytes as its parts. -/
theorem utf8ByteSize_eq {text : String} {before after : List Char}
    (hparts : text.toList = before ++ after) :
    text.utf8ByteSize = byteSize before + byteSize after := by
  rw [← byteSize_toList, hparts, byteSize_append]

/-! ## Characters and bytes -/

/-- Every character takes at least one byte. -/
theorem length_le_byteSize (cs : List Char) : cs.length ≤ byteSize cs := by
  induction cs with
  | nil => exact Nat.le_refl 0
  | cons c cs ih =>
      have hpos := c.utf8Size_pos
      rw [List.length_cons, byteSize_cons]
      omega

/-- Of two beginnings of a text, the one that takes fewer bytes is a beginning of the
other. -/
theorem exists_append_of_byteSize_lt {as bs as' bs' : List Char} (happend : as ++ bs = as' ++ bs')
    (hsize : byteSize as < byteSize as') : ∃ middle, as' = as ++ middle := by
  rcases List.append_eq_append_iff.mp happend with ⟨middle, hlonger, -⟩ | ⟨middle, rfl, -⟩
  · exact ⟨middle, hlonger⟩
  · rw [byteSize_append] at hsize
    omega

/-! ## Line breaks -/

/-- The bytes of a character that takes more than one have their high bit set. -/
theorem high_of_mem_utf8EncodeChar {c : Char} (h : 127 < c.val.toNat) :
    ∀ byte ∈ String.utf8EncodeChar c, 128 ≤ byte.toNat := by
  have hbyte : ∀ n k : Nat, 128 ≤ k → n + k < 256 → 128 ≤ (UInt8.ofNat (n + k)).toNat := by
    intro n k hk hbound
    rw [UInt8.toNat_ofNat', Nat.mod_eq_of_lt hbound]
    omega
  unfold String.utf8EncodeChar
  dsimp only
  rw [if_neg (by omega)]
  split_ifs <;> simp only [List.forall_mem_cons, List.not_mem_nil, false_implies, implies_true,
    and_true] <;> repeat' apply And.intro
  all_goals exact hbyte _ _ (by decide) (by omega)

/-- No other character has the byte of a line break in its encoding. -/
theorem lineBreak_notMem_utf8EncodeChar {c : Char} (h : c ≠ '\n') :
    lineBreak ∉ String.utf8EncodeChar c := by
  intro hmem
  by_cases hascii : c.val.toNat ≤ 127
  · rw [String.utf8EncodeChar, if_pos hascii] at hmem
    have hnat := congrArg UInt8.toNat (List.mem_singleton.mp hmem)
    rw [UInt8.toNat_ofNat', Nat.mod_eq_of_lt (by omega)] at hnat
    exact h (Char.ext (UInt32.toNat_inj.mp hnat.symm))
  · have hhigh := high_of_mem_utf8EncodeChar (by omega) lineBreak hmem
    contradiction

/-- Line breaks can be counted among bytes or among characters. -/
theorem count_encode (cs : List Char) : (encode cs).count lineBreak = cs.count '\n' := by
  induction cs with
  | nil => rfl
  | cons c cs ih =>
      rw [encode_cons, List.count_append, ih, List.count_cons, Nat.add_comm]
      by_cases hbreak : c = '\n'
      · subst hbreak
        rfl
      · rw [List.count_eq_zero.mpr (lineBreak_notMem_utf8EncodeChar hbreak)]
        simp [hbreak]

/-! ## Full lines -/

section LastMark

variable {α : Type} [DecidableEq α] (mark : α) (as : List α)

/-- Up to its last mark, a list is empty or ends with the mark. -/
theorem rdropWhile_ne_eq :
    as.rdropWhile (· ≠ mark) = [] ∨ ∃ front, as.rdropWhile (· ≠ mark) = front ++ [mark] := by
  by_cases hnil : as.rdropWhile (· ≠ mark) = []
  · exact Or.inl hnil
  · have hlast := List.rdropWhile_last_not (· ≠ mark) as hnil
    have hmark : (as.rdropWhile (· ≠ mark)).getLast hnil = mark := by simpa using hlast
    have hparts := List.dropLast_append_getLast hnil
    rw [hmark] at hparts
    exact Or.inr ⟨_, hparts.symm⟩

/-- There is no mark after the last one. -/
theorem count_rtakeWhile_ne : (as.rtakeWhile (· ≠ mark)).count mark = 0 := by
  rw [List.count_eq_zero]
  intro hmem
  simpa using List.mem_rtakeWhile_imp hmem

/-- Behind the last mark there is everything that is appended without a mark. -/
theorem rtakeWhile_ne_append {bs : List α} (h : mark ∉ bs) :
    (as ++ bs).rtakeWhile (· ≠ mark) = as.rtakeWhile (· ≠ mark) ++ bs := by
  have hall : ∀ b ∈ bs.reverse, decide (b ≠ mark) = true := by
    intro b hb
    apply decide_eq_true
    rintro rfl
    exact h (List.mem_reverse.mp hb)
  rw [List.rtakeWhile, List.reverse_append, List.takeWhile_append_of_pos hall, List.reverse_append,
    List.reverse_reverse, List.rtakeWhile]

end LastMark

/-- A text is made of full lines: it is empty or ends with a line break. -/
def IsFullLines (cs : List Char) : Prop :=
  cs = [] ∨ ∃ front, cs = front ++ ['\n']

/-- A text is cut into full lines and a last line without a line break. -/
theorem exists_lastLine (cs : List Char) :
    ∃ lines, cs = lines ++ cs.rtakeWhile (· ≠ '\n') ∧ IsFullLines lines ∧
      (cs.rtakeWhile (· ≠ '\n')).count '\n' = 0 :=
  ⟨cs.rdropWhile (· ≠ '\n'), List.rdropWhile_append_rtakeWhile.symm, rdropWhile_ne_eq '\n' cs,
    count_rtakeWhile_ne '\n' cs⟩

/-- Without what follows its last line break, a text keeps its full lines. -/
theorem rdropWhile_encode {lines line : List Char} (hlines : IsFullLines lines)
    (hline : line.count '\n' = 0) :
    (encode (lines ++ line)).rdropWhile (· ≠ lineBreak) = encode lines := by
  have hkept : (encode lines).rdropWhile (· ≠ lineBreak) = encode lines := by
    rcases hlines with rfl | ⟨front, rfl⟩
    · rfl
    · have hlast : encode (front ++ ['\n']) = encode front ++ [lineBreak] := encode_append ..
      rw [hlast]
      exact List.rdropWhile_concat_neg _ _ _ (by simp)
  have hdropped : ∀ byte ∈ (encode line).reverse, decide (byte ≠ lineBreak) = true := by
    intro byte hbyte
    have hnone := List.count_eq_zero.mp ((count_encode line).trans hline)
    apply decide_eq_true
    rintro rfl
    exact hnone (List.mem_reverse.mp hbyte)
  calc (encode (lines ++ line)).rdropWhile (· ≠ lineBreak)
      = (encode lines).rdropWhile (· ≠ lineBreak) := by
        rw [encode_append, List.rdropWhile, List.reverse_append,
          List.dropWhile_append_of_pos hdropped, List.rdropWhile]
    _ = encode lines := hkept

end Text
end ScriptLowering
