/-!
# Words of a text

A word is a maximal run of characters that are not blank.  Blank are the 25
code points with the Unicode property `White_Space`, which include line ends,
the no-break space and the ideographic space.

Main results:

- `run_append_inj`: a run of characters of one class determines itself and what follows it.
-/

namespace ScriptLowering
namespace Text

/-- The code points with the Unicode property `White_Space`. -/
def blankCodePoints : List Nat :=
  [ 0x9, 0xA, 0xB, 0xC, 0xD, 0x20, 0x85, 0xA0, 0x1680,
    0x2000, 0x2001, 0x2002, 0x2003, 0x2004, 0x2005, 0x2006, 0x2007, 0x2008, 0x2009, 0x200A,
    0x2028, 0x2029, 0x202F, 0x205F, 0x3000]

/-- A character with the Unicode property `White_Space`. -/
def isBlank (c : Char) : Bool :=
  blankCodePoints.contains c.toNat

/-- The words of a list of characters, `word` being the part already read of the first, reversed. -/
def wordsFrom (word : List Char) : List Char → List (List Char)
  | [] => if word.isEmpty then [] else [word.reverse]
  | c :: rest =>
    if isBlank c then
      if word.isEmpty then wordsFrom [] rest else word.reverse :: wordsFrom [] rest
    else wordsFrom (c :: word) rest

/-- The words of a text, in order. -/
def words (text : String) : List String :=
  (wordsFrom [] text.toList).map String.ofList

/-- A run of characters of one class determines itself and what follows it when that does not go on
with a character of the class. -/
theorem run_append_inj {p : Char → Bool} {cs ds r s : List Char} (hcs : ∀ c ∈ cs, p c)
    (hds : ∀ c ∈ ds, p c) (hr : ∀ c ∈ r.head?, ¬ p c) (hs : ∀ c ∈ s.head?, ¬ p c)
    (h : cs ++ r = ds ++ s) : cs = ds ∧ r = s := by
  have htake : ∀ {run rest : List Char}, (∀ c ∈ run, p c) → (∀ c ∈ rest.head?, ¬ p c) →
      (run ++ rest).takeWhile p = run := by
    intro run rest hrun hrest
    rw [List.takeWhile_append_of_pos hrun]
    cases rest with
    | nil => exact List.append_nil run
    | cons c rest => rw [List.takeWhile_cons_of_neg (hrest c rfl), List.append_nil]
  obtain rfl : cs = ds := by rw [← htake hcs hr, h, htake hds hs]
  exact ⟨rfl, List.append_cancel_left h⟩

end Text
end ScriptLowering
