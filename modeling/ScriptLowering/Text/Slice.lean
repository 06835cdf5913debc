/-!
# Slices of a text by byte offsets

Offsets count the bytes of the UTF-8 encoding.  A slice exists only when both
of its ends fall between characters of the text and the first is not after the
second.

Main results:

- `splitAtByte?_append`: cutting at the size of a first part gives the two parts.
- `slice?_append`: the offsets around a middle part cut out that part.
- `slice?_eq_some_iff`: a slice is a middle part, between the ends of what stands before it and
  of the slice itself.
- `slice?_trans`: two slices that meet are one slice.
-/

namespace ScriptLowering
namespace Text

/-- The number of bytes in the encoding of a list of characters. -/
def byteSize : List Char → Nat
  | [] => 0
  | c :: cs => c.utf8Size + byteSize cs

@[simp]
theorem byteSize_nil : byteSize [] = 0 :=
  rfl

@[simp]
theorem byteSize_cons (c : Char) (cs : List Char) :
    byteSize (c :: cs) = c.utf8Size + byteSize cs :=
  rfl

@[simp]
theorem byteSize_append (as bs : List Char) :
    byteSize (as ++ bs) = byteSize as + byteSize bs := by
  induction as with
  | nil => simp
  | cons c as ih => simp [ih, Nat.add_assoc]

/-- Cuts `offset` bytes off a list of characters, `before` being what was cut off already, reversed.
A character that straddles the offset cannot be cut. -/
def splitFrom? (before : List Char) : List Char → Nat → Option (List Char × List Char)
  | cs, 0 => some (before.reverse, cs)
  | [], _ + 1 => none
  | c :: rest, n + 1 =>
    if c.utf8Size ≤ n + 1 then splitFrom? (c :: before) rest (n + 1 - c.utf8Size) else none

/-- The characters before a byte offset and those after it, when no character straddles it. -/
def splitAtByte? (cs : List Char) (offset : Nat) : Option (List Char × List Char) :=
  splitFrom? [] cs offset

@[simp]
theorem splitFrom?_zero (before cs : List Char) :
    splitFrom? before cs 0 = some (before.reverse, cs) := by
  cases cs <;> rfl

/-- A list of characters is cut where one of its halves ends. -/
theorem splitFrom?_append (before as bs : List Char) :
    splitFrom? before (as ++ bs) (byteSize as) = some (before.reverse ++ as, bs) := by
  induction as generalizing before with
  | nil => simp
  | cons c as ih =>
    have positive := c.utf8Size_pos
    obtain ⟨n, size⟩ : ∃ n, c.utf8Size + byteSize as = n + 1 :=
      ⟨c.utf8Size + byteSize as - 1, by omega⟩
    have fits : c.utf8Size ≤ n + 1 := by omega
    have left : n + 1 - c.utf8Size = byteSize as := by omega
    simp [size, splitFrom?, fits, left, ih]

/-- Two lists of characters are cut apart at the size of the first. -/
theorem splitAtByte?_append (as bs : List Char) :
    splitAtByte? (as ++ bs) (byteSize as) = some (as, bs) := by
  simp [splitAtByte?, splitFrom?_append]

/-- The text between two byte offsets. -/
def slice? (text : String) (start stop : Nat) : Option String := do
  guard (start ≤ stop)
  let (_, rest) ← splitAtByte? text.toList start
  let (middle, _) ← splitAtByte? rest (stop - start)
  return String.ofList middle

/-- The middle of a text is cut out by the sizes of what is before it and of itself. -/
theorem slice?_append {text : String} {before middle after : List Char}
    (parts : text.toList = before ++ middle ++ after) :
    slice? text (byteSize before) (byteSize before + byteSize middle) =
      some (String.ofList middle) := by
  have size : byteSize before + byteSize middle - byteSize before = byteSize middle := by omega
  have within : guard (byteSize before ≤ byteSize before + byteSize middle) = some () :=
    if_pos (Nat.le_add_right _ _)
  rw [slice?, within]
  simp [parts, size, splitAtByte?_append]

/-- A list that can be cut is what was cut off followed by the rest. -/
theorem exists_of_splitFrom? {before cs as bs : List Char} {offset : Nat}
    (h : splitFrom? before cs offset = some (as, bs)) :
    ∃ taken, as = before.reverse ++ taken ∧ cs = taken ++ bs ∧ byteSize taken = offset := by
  fun_induction splitFrom? before cs offset with
  | case1 before cs =>
      obtain ⟨rfl, rfl⟩ := Prod.mk.inj (Option.some.inj h)
      exact ⟨[], by simp⟩
  | case2 => contradiction
  | case3 before c rest n hfits ih =>
      obtain ⟨taken, rfl, rfl, hsize⟩ := ih h
      refine ⟨c :: taken, by simp, rfl, ?_⟩
      rw [byteSize_cons, hsize]
      omega
  | case4 => contradiction

/-- A slice is a middle part of the text, and its ends stand between characters. -/
theorem slice?_eq_some_iff {text middle : String} {start stop : Nat} :
    slice? text start stop = some middle ↔
      ∃ before after, text.toList = before ++ middle.toList ++ after ∧ byteSize before = start ∧
        byteSize before + byteSize middle.toList = stop := by
  constructor
  · intro h
    unfold slice? at h
    obtain ⟨_, hwithin, h⟩ := Option.bind_eq_some_iff.mp h
    obtain ⟨⟨before, rest⟩, hstart, h⟩ := Option.bind_eq_some_iff.mp h
    obtain ⟨⟨own, after⟩, hstop, h⟩ := Option.bind_eq_some_iff.mp h
    obtain ⟨_, rfl, hparts, hsize⟩ := exists_of_splitFrom? hstart
    obtain ⟨_, rfl, hrest, hsize'⟩ := exists_of_splitFrom? hstop
    obtain rfl := Option.some.inj h
    have hle : start ≤ stop := by
      apply Decidable.byContradiction
      intro hgt
      have hnone : guard (start ≤ stop) = (none : Option Unit) := if_neg hgt
      rw [hnone] at hwithin
      contradiction
    refine ⟨before, after, by simp [hparts, hrest], hsize, ?_⟩
    rw [String.toList_ofList]
    omega
  · rintro ⟨before, after, hparts, rfl, rfl⟩
    rw [slice?_append hparts, String.ofList_toList]

/-- The ends of a slice stand between characters. -/
theorem exists_of_slice? {text middle : String} {start stop : Nat}
    (h : slice? text start stop = some middle) :
    ∃ before after, text.toList = before ++ middle.toList ++ after ∧ byteSize before = start := by
  obtain ⟨before, after, hparts, hstart, -⟩ := slice?_eq_some_iff.mp h
  exact ⟨before, after, hparts, hstart⟩

/-- Two beginnings of a text that take as many bytes are the same. -/
theorem eq_of_byteSize_eq {as bs as' bs' : List Char} (happend : as ++ bs = as' ++ bs')
    (hsize : byteSize as = byteSize as') : as = as' := by
  have hcut := splitAtByte?_append as bs
  rw [happend, hsize, splitAtByte?_append as' bs'] at hcut
  exact (Prod.mk.inj (Option.some.inj hcut)).1.symm

/-- Two slices that meet are one slice. -/
theorem slice?_trans {text first second : String} {start middle stop : Nat}
    (hfirst : slice? text start middle = some first)
    (hsecond : slice? text middle stop = some second) :
    slice? text start stop = some (first ++ second) := by
  obtain ⟨before, after, hparts, rfl, hmiddle⟩ := slice?_eq_some_iff.mp hfirst
  obtain ⟨before', after', hparts', hmiddle', hstop⟩ := slice?_eq_some_iff.mp hsecond
  have happend : (before ++ first.toList) ++ after = before' ++ (second.toList ++ after') := by
    rw [← hparts, hparts', List.append_assoc]
  have hsize : byteSize (before ++ first.toList) = byteSize before' := by
    rw [byteSize_append, hmiddle, hmiddle']
  obtain rfl : before ++ first.toList = before' := eq_of_byteSize_eq happend hsize
  apply slice?_eq_some_iff.mpr
  refine ⟨before, after', ?_, rfl, ?_⟩
  · rw [hparts', String.toList_append, List.append_assoc before]
  · rw [← hstop, String.toList_append, byteSize_append, byteSize_append, Nat.add_assoc]

end Text
end ScriptLowering
