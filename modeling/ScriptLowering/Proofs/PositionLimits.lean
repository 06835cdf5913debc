import ScriptLowering.Proofs.LineLookup

/-!
# The limits of positions

Lines and columns are counted from one, in 32-bit words.  An index that is no word
is cut down to the last word but one before it is counted, so that its ordinal is
the last word.  The last word itself is not cut down, and is the one index whose
ordinal is zero.  An offset reaches that index only at the very end of the
offsets, in a text that fills them all with line breaks, or with characters of one
line.

Main results:

- Theorem `LineTable.ordinal_eq_zero_iff`: the last word is the only index without
  an ordinal.
- Theorem `LineTable.lineAt_eq_zero_iff`: the one line that cannot be counted.
- Theorem `column_positionIn_eq_zero_iff`: the one column that cannot be counted.
- Theorem `positionIn_limits`: all other positions are counted from one.
-/

namespace ScriptLowering

/-- The first characters of a text fill all offsets, with one byte each. -/
def Text.FillsOffsets (source : String) : Prop :=
  ∃ front after, source.toList = front ++ after ∧ front.length = Span.maxOffset ∧
    Text.byteSize front = Span.maxOffset

/-- A text that fills all offsets reaches the last of them. -/
theorem Text.FillsOffsets.le_utf8ByteSize {source : String} (h : Text.FillsOffsets source) :
    Span.maxOffset ≤ source.utf8ByteSize := by
  obtain ⟨front, after, hparts, -, hbytes⟩ := h
  rw [Text.utf8ByteSize_eq hparts, hbytes]
  exact Nat.le_add_right ..

namespace LineTable

/-! ## Ordinals -/

/-- No word is larger than the last offset. -/
theorem toNat_le_maxOffset (offset : UInt32) : offset.toNat ≤ Span.maxOffset :=
  Nat.le_of_lt_succ offset.toNat_lt

/-- The ordinal of an index is one larger, up to the last word; the last word itself
has none. -/
theorem toNat_ordinal_eq_ite (n : Nat) :
    (ordinal n).toNat = if n = Span.maxOffset then 0 else min (n + 1) Span.maxOffset := by
  split_ifs with hlast
  · subst hlast
    decide
  · by_cases hword : n < Span.maxOffset
    · rw [toNat_ordinal hword, Nat.min_eq_left hword]
    · rw [ordinal, if_neg (by omega), Nat.min_eq_right (by omega)]
      rfl

/-- The last word is the only index without an ordinal. -/
theorem ordinal_eq_zero_iff {n : Nat} : ordinal n = 0 ↔ n = Span.maxOffset := by
  have hmax : 0 < Span.maxOffset := by decide
  rw [← UInt32.toNat_inj, toNat_ordinal_eq_ite, UInt32.toNat_zero]
  split_ifs with hlast <;> omega

theorem toNat_ordinal_le (n : Nat) : (ordinal n).toNat ≤ n + 1 := by
  rw [toNat_ordinal_eq_ite]
  split_ifs <;> omega

/-- The ordinal of an index is one, or none at all, for the first and the last word. -/
theorem toNat_ordinal_le_one_iff {n : Nat} :
    (ordinal n).toNat ≤ 1 ↔ n = 0 ∨ n = Span.maxOffset := by
  have hmax : 1 < Span.maxOffset := by decide
  rw [toNat_ordinal_eq_ite]
  split_ifs <;> omega

/-! ## How far lines reach -/

/-- There are at least as many bytes before a line as there are lines. -/
theorem add_lt_of_getElem?_startsAfterBytes {offset index start : Nat} {bytes : List UInt8}
    (h : (startsAfterBytes offset bytes)[index]? = some start) : offset + index < start := by
  induction bytes generalizing offset index with
  | nil => contradiction
  | cons byte bytes ih =>
      rw [startsAfterBytes] at h
      split at h
      · cases index with
        | zero =>
            obtain rfl : offset + 1 = start := Option.some.inj h
            omega
        | succ index =>
            have hbound := ih h
            omega
      · have hbound := ih h
        omega

/-- A line starts no earlier than its index, since each line before it has a byte. -/
theorem le_of_getElem?_lineStarts {index start : Nat} {bytes : List UInt8}
    (h : (lineStarts bytes)[index]? = some start) : index ≤ start := by
  cases index with
  | zero => exact Nat.zero_le _
  | succ index =>
      have hbound := add_lt_of_getElem?_startsAfterBytes h
      omega

/-- The lines behind the first start at a word above zero, whether cut down or not. -/
theorem getD_lineStart?_eq_zero_iff {source : String} {line : UInt32}
    (hline : line.toNat ≤ (ofSource source).size) :
    ((ofSource source).lineStart? line).getD 0 = 0 ↔ line.toNat ≤ 1 := by
  by_cases hzero : line = 0
  · subst hzero
    exact iff_of_true rfl (Nat.zero_le _)
  · have hpos : line.toNat ≠ 0 := fun hnat => hzero (UInt32.toNat_inj.mp hnat)
    obtain ⟨start, hstart⟩ := exists_lineStart? (Nat.pos_of_ne_zero hpos) hline
    have hindex := hstart
    rw [lineStart?, beq_false_of_ne hzero, starts_ofSource] at hindex
    simp only [Bool.false_eq_true, if_false, List.getElem?_map, Option.map_eq_some_iff] at hindex
    obtain ⟨place, hplace, rfl⟩ := hindex
    rw [hstart, Option.getD_some, ← UInt32.toNat_inj, toNat_word_eq_min]
    have hreach := le_of_getElem?_lineStarts hplace
    constructor
    · intro hnat
      have hmin : min place Span.maxOffset = 0 := hnat
      have hmax : Span.maxOffset ≠ 0 := by decide
      omega
    · intro hfirst
      obtain hone : line.toNat - 1 = 0 := by omega
      rw [hone] at hplace
      obtain rfl : 0 = place := Option.some.inj hplace
      rfl

/-! ## Lines at the last offset -/

section Lines

variable {source : String} {offset : UInt32}

/-- Before the last offset, a word is at or before an offset exactly if what it was
cut down from is. -/
theorem word_le_iff (hoffset : offset.toNat < Span.maxOffset) (n : Nat) :
    word n ≤ offset ↔ n ≤ offset.toNat := by
  rw [UInt32.le_iff_toNat_le, toNat_word_eq_min]
  omega

/-- Before the last offset, lines are counted by the line breaks before them, in a
text of any length. -/
theorem lineAt_of_lt_maxOffset (hoffset : offset.toNat < Span.maxOffset) :
    (ofSource source).lineAt offset =
      ordinal (((Text.bytes source).take offset.toNat).count Text.lineBreak) :=
  lineAt_eq_ordinal fun start _ => word_le_iff hoffset start

/-- No line starts behind the last offset. -/
theorem lineAt_of_eq_maxOffset (hoffset : offset.toNat = Span.maxOffset) :
    (ofSource source).lineAt offset = ordinal (source.toList.count '\n') := by
  have hcount : (ofSource source).starts.countP (· ≤ offset) = (ofSource source).size := by
    rw [size, List.countP_eq_length]
    intro start hstart
    rw [starts_ofSource] at hstart
    obtain ⟨n, -, rfl⟩ := List.mem_map.mp hstart
    apply decide_eq_true
    rw [UInt32.le_iff_toNat_le, toNat_word_eq_min, hoffset]
    exact Nat.min_le_right ..
  rw [lineAt, hcount, size_ofSource, Nat.add_sub_cancel]

/-- The line of an offset is one of the lines, unless it cannot be counted. -/
theorem toNat_lineAt_le_size (source : String) (offset : UInt32) :
    ((ofSource source).lineAt offset).toNat ≤ (ofSource source).size := by
  have hcount := List.countP_le_length (p := (· ≤ offset)) (l := (ofSource source).starts)
  have hordinal := toNat_ordinal_le ((ofSource source).starts.countP (· ≤ offset) - 1)
  have hsize := size_ofSource source
  unfold size at hsize ⊢
  unfold lineAt
  omega

/-- A line cannot be counted if it is the last one, at the last offset, behind as many
line breaks as there are offsets. -/
theorem lineAt_eq_zero_iff :
    (ofSource source).lineAt offset = 0 ↔
      offset.toNat = Span.maxOffset ∧ source.toList.count '\n' = Span.maxOffset := by
  rcases Nat.lt_or_eq_of_le (toNat_le_maxOffset offset) with hlt | heq
  · have hcount := List.count_le_length (a := Text.lineBreak)
      (l := (Text.bytes source).take offset.toNat)
    have htake := (Text.bytes source).length_take_le offset.toNat
    rw [lineAt_of_lt_maxOffset hlt, ordinal_eq_zero_iff]
    omega
  · rw [lineAt_of_eq_maxOffset heq, ordinal_eq_zero_iff]
    exact ⟨fun hcount => ⟨heq, hcount⟩, And.right⟩

/-- A line whose index is the last word starts no earlier, behind no fewer line breaks. -/
theorem maxOffset_le_of_getElem?_starts {start : UInt32}
    (h : (ofSource source).starts[Span.maxOffset]? = some start) :
    Span.maxOffset ≤ start.toNat ∧ Span.maxOffset ≤ source.toList.count '\n' := by
  obtain ⟨hindex, -⟩ := List.getElem?_eq_some_iff.mp h
  have hsize := size_ofSource source
  unfold size at hsize
  rw [starts_ofSource, List.getElem?_map, Option.map_eq_some_iff] at h
  obtain ⟨place, hplace, rfl⟩ := h
  have hreach := le_of_getElem?_lineStarts hplace
  rw [toNat_word_eq_min]
  omega

/-- A search can answer the last word only for the last offset, in a text with no
fewer line breaks. -/
theorem finds_maxOffset_iff :
    (ofSource source).Finds offset Span.maxOffset ↔
      offset.toNat = Span.maxOffset ∧ Span.maxOffset ≤ source.toList.count '\n' := by
  have hlast := toNat_le_maxOffset offset
  have hsize := size_ofSource source
  unfold size at hsize
  constructor
  · intro h
    generalize hanswer : Span.maxOffset = answer at h
    cases h with
    | exact hstart =>
        rw [← hanswer] at hstart
        have hbounds := maxOffset_le_of_getElem?_starts hstart
        omega
    | @insert index hindex hbefore hafter =>
        -- The start just before the place of insertion would be behind all offsets.
        have hmax : 0 < Span.maxOffset := by decide
        have hlt : Span.maxOffset < (ofSource source).starts.length := by omega
        have hstart := List.getElem?_eq_getElem hlt
        have hbounds := maxOffset_le_of_getElem?_starts hstart
        have hearlier := hbefore _ (List.mem_take_iff_getElem.mpr
          ⟨Span.maxOffset, by omega, rfl⟩)
        rw [UInt32.lt_iff_toNat_lt] at hearlier
        omega
  · rintro ⟨hoffset, hcount⟩
    have hlt : Span.maxOffset < (ofSource source).starts.length := by omega
    have hstart := List.getElem?_eq_getElem hlt
    have hbounds := maxOffset_le_of_getElem?_starts hstart
    refine .exact (hstart.trans (congrArg some (UInt32.toNat_inj.mp ?_)))
    have hlast := toNat_le_maxOffset (ofSource source).starts[Span.maxOffset]
    omega

end Lines

end LineTable

/-! ## Columns at the last offset -/

section Columns

variable {source : String} {offset : UInt32}

/-- A slice has as many characters as there are offsets if it is that of the first
characters, and these fill all offsets. -/
theorem Text.length_slice?_eq_maxOffset_iff (source : String) (start : Nat) {stop : Nat}
    (hstop : stop ≤ Span.maxOffset) :
    (Text.slice? source start stop).elim 0 String.length = Span.maxOffset ↔
      start = 0 ∧ stop = Span.maxOffset ∧ Text.FillsOffsets source := by
  constructor
  · intro hlength
    cases hslice : Text.slice? source start stop with
    | none =>
        rw [hslice] at hlength
        contradiction
    | some middle =>
        rw [hslice] at hlength
        obtain ⟨before, after, hparts, hbefore, hmiddle⟩ := Text.slice?_eq_some_iff.mp hslice
        have hbytes := Text.length_le_byteSize middle.toList
        have hchars : middle.toList.length = Span.maxOffset := hlength
        have hempty : before.length ≤ Text.byteSize before := Text.length_le_byteSize before
        obtain rfl : before = [] := List.length_eq_zero_iff.mp (by omega)
        exact ⟨by omega, by omega, middle.toList, after, hparts, hchars, by omega⟩
  · rintro ⟨rfl, rfl, front, after, hparts, hlength, hbytes⟩
    have hslice : Text.slice? source 0 Span.maxOffset = some (String.ofList front) :=
      Text.slice?_eq_some_iff.mpr
        ⟨[], after, by rw [String.toList_ofList]; exact hparts, rfl, by
          rw [String.toList_ofList, hbytes, Text.byteSize_nil, Nat.zero_add]⟩
    rw [hslice, Option.elim_some, String.length_ofList, hlength]

/-- A column cannot be counted if all characters up to the last offset are before it,
with one byte each.  They are on one line, or on so many that their line cannot be
counted either. -/
theorem column_positionIn_eq_zero_iff :
    (positionIn source offset).column = 0 ↔
      offset.toNat = Span.maxOffset ∧ Text.FillsOffsets source ∧
        (source.toList.count '\n' = 0 ∨ source.toList.count '\n' = Span.maxOffset) := by
  have hlast := LineTable.toNat_le_maxOffset offset
  have hfirst := LineTable.getD_lineStart?_eq_zero_iff
    (LineTable.toNat_lineAt_le_size source offset)
  rw [← UInt32.toNat_inj, UInt32.toNat_zero] at hfirst
  have hstop : min offset.toNat source.utf8ByteSize ≤ Span.maxOffset := by omega
  rw [positionIn, LineTable.positionAt, LineTable.ordinal_eq_zero_iff,
    Text.length_slice?_eq_maxOffset_iff source _ hstop, hfirst]
  constructor
  · rintro ⟨hline, hstop, hfills⟩
    have hoffset : offset.toNat = Span.maxOffset := by omega
    rw [LineTable.lineAt_of_eq_maxOffset hoffset, LineTable.toNat_ordinal_le_one_iff] at hline
    exact ⟨hoffset, hfills, hline⟩
  · rintro ⟨hoffset, hfills, hlines⟩
    have hlong := hfills.le_utf8ByteSize
    rw [LineTable.lineAt_of_eq_maxOffset hoffset, LineTable.toNat_ordinal_le_one_iff]
    exact ⟨hlines, by omega, hfills⟩

end Columns

/-! ## All positions -/

/-- A position has a line and a column, both counted from one. -/
def Position.IsCounted (position : Position) : Prop :=
  1 ≤ position.line.toNat ∧ 1 ≤ position.column.toNat

theorem one_le_toNat_iff {word : UInt32} : 1 ≤ word.toNat ↔ word ≠ 0 := by
  rw [Nat.one_le_iff_ne_zero, ne_eq, ne_eq, ← UInt32.toNat_inj, UInt32.toNat_zero]

/-- The position of every offset into a text is counted from one, except at the very
end of the offsets: there, the line cannot be counted behind as many line breaks as
there are offsets, nor the column behind as many characters of one byte on one line.

Where several lines start at the last offset because they were all cut down to it, a
search may answer any of them, and `search` says when one of the answers has no
ordinal. -/
structure PositionLimits (source : String) (offset : UInt32) : Prop where
  search : (∀ index, (LineTable.ofSource source).Finds offset index →
      1 ≤ (LineTable.ordinal index).toNat) ↔
    ¬(offset.toNat = Span.maxOffset ∧ Span.maxOffset ≤ source.toList.count '\n')
  line : 1 ≤ ((LineTable.ofSource source).lineAt offset).toNat ↔
    ¬(offset.toNat = Span.maxOffset ∧ source.toList.count '\n' = Span.maxOffset)
  position : (positionIn source offset).IsCounted ↔
    ¬(offset.toNat = Span.maxOffset ∧ (source.toList.count '\n' = Span.maxOffset ∨
      source.toList.count '\n' = 0 ∧ Text.FillsOffsets source))

/-- Positions are counted from one at every offset but the largest, and there on every text
but two kinds: those with as many line breaks as the offset says, and those without a line
break whose characters fill all offsets. -/
theorem positionIn_limits (source : String) (offset : UInt32) : PositionLimits source offset where
  search := by
    rw [← LineTable.finds_maxOffset_iff]
    constructor
    · intro hcounted hfinds
      exact one_le_toNat_iff.mp (hcounted _ hfinds) (LineTable.ordinal_eq_zero_iff.mpr rfl)
    · intro hnone index hfinds
      rw [one_le_toNat_iff, ne_eq, LineTable.ordinal_eq_zero_iff]
      rintro rfl
      exact hnone hfinds
  line := by
    rw [one_le_toNat_iff, ne_eq, LineTable.lineAt_eq_zero_iff]
  position := by
    have hline : (positionIn source offset).line = (LineTable.ofSource source).lineAt offset := rfl
    rw [Position.IsCounted, one_le_toNat_iff, one_le_toNat_iff, hline, ne_eq, ne_eq,
      LineTable.lineAt_eq_zero_iff, column_positionIn_eq_zero_iff]
    grind

/-! ## Texts that reach the limits -/

/-- As many characters of one byte as there are offsets fill all of them. -/
theorem Text.fillsOffsets_replicate {c : Char} {n : Nat} (hsize : c.utf8Size = 1)
    (hn : n = Span.maxOffset) : Text.FillsOffsets (String.ofList (List.replicate n c)) := by
  have hbytes : ∀ m, Text.byteSize (List.replicate m c) = m := by
    intro m
    induction m with
    | zero => rfl
    | succ m ih => rw [List.replicate_succ, Text.byteSize_cons, ih, hsize, Nat.add_comm]
  refine ⟨List.replicate n c, [], ?_, ?_, ?_⟩
  · rw [String.toList_ofList, List.append_nil]
  · rw [List.length_replicate, hn]
  · rw [hbytes, hn]

/-- Neither the line behind as many line breaks as there are offsets can be counted,
nor the column behind as many letters. -/
theorem positionIn_longTexts :
    (LineTable.ofSource (.ofList (List.replicate Span.maxOffset '\n'))).lineAt 4294967295 = 0 ∧
      positionIn (.ofList (List.replicate Span.maxOffset 'a')) 4294967295 = ⟨1, 0⟩ := by
  have hoffset : (4294967295 : UInt32).toNat = Span.maxOffset := by decide
  -- The texts are too long to be written out, so their length has to stay a variable.
  generalize hn : Span.maxOffset = n
  have hfills := Text.fillsOffsets_replicate (c := 'a') (by decide) hn.symm
  have hbreaks : (String.ofList (List.replicate n '\n')).toList.count '\n' = Span.maxOffset := by
    rw [String.toList_ofList, List.count_replicate_self, hn]
  have hletters : (String.ofList (List.replicate n 'a')).toList.count '\n' = 0 := by
    rw [String.toList_ofList, List.count_replicate]
    rfl
  have hline : (LineTable.ofSource (String.ofList (List.replicate n 'a'))).lineAt 4294967295 =
      LineTable.ordinal 0 := by
    rw [LineTable.lineAt_of_eq_maxOffset hoffset, hletters]
  have hcolumn := column_positionIn_eq_zero_iff.mpr ⟨hoffset, hfills, Or.inl hletters⟩
  exact ⟨LineTable.lineAt_eq_zero_iff.mpr ⟨hoffset, hbreaks⟩,
    congrArg₂ Position.mk hline hcolumn⟩

end ScriptLowering
