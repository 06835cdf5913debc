import ScriptLowering.Report.LineTable
import ScriptLowering.Text.Bytes

/-!
# Positions by line and column

A line table finds the line of an offset among the starts of all lines, and the
column by cutting the text at the start of the line.  Both amount to counting:
the line breaks before the offset, and the characters after the last of them.

Main results:

- Theorem `LineTable.lineAt_ofSource`: the line of an offset is the number of line
  breaks among the bytes before it, counted from one.
- Theorem `LineTable.lineStart?_lineAt`: that line starts just after the last line
  break.
- Theorem `positionIn_eq`: the position of an offset between two characters.
-/

namespace ScriptLowering

/-- A position is that of an offset between two characters of a text: its line
counts the line breaks before the offset, and its column the characters after the
last of them, both from one. -/
def Position.IsAt (source : String) (offset : Nat) (position : Position) : Prop :=
  ∃ before after, source.toList = before ++ after ∧ Text.byteSize before = offset ∧
    position.line.toNat = 1 + before.count '\n' ∧
    position.column.toNat = 1 + (before.rtakeWhile (· ≠ '\n')).length

namespace LineTable

/-- A count as a word is the count, up to the largest word. -/
theorem toNat_word_eq_min (n : Nat) : (word n).toNat = min n Span.maxOffset := by
  have hmax : Span.maxOffset < UInt32.size := by decide
  rw [word, UInt32.toNat_ofNat_of_lt' (by omega)]

theorem toNat_word {n : Nat} (h : n ≤ Span.maxOffset) : (word n).toNat = n := by
  rw [toNat_word_eq_min, Nat.min_eq_left h]

/-- The ordinal of an index below the largest word is one larger. -/
theorem toNat_ordinal {n : Nat} (h : n < Span.maxOffset) : (ordinal n).toNat = n + 1 := by
  have hmax : Span.maxOffset + 1 = UInt32.size := by decide
  rw [ordinal, if_pos (by omega), UInt32.toNat_add, UInt32.toNat_ofNat_of_lt' (by omega)]
  exact Nat.mod_eq_of_lt (show n + 1 < UInt32.size by omega)

/-- Ordinals are in the order of their indices. -/
theorem ordinal_lt_ordinal {m n : Nat} (hlt : m < n) (hn : n < Span.maxOffset) :
    ordinal m < ordinal n := by
  rw [UInt32.lt_iff_toNat_lt, toNat_ordinal (hlt.trans hn), toNat_ordinal hn]
  omega

/-! ## Where lines start -/

/-- The offsets just after the line breaks among some bytes, the first of which is at `offset`. -/
def startsAfterBytes (offset : Nat) : List UInt8 → List Nat
  | [] => []
  | byte :: bytes =>
    if byte = Text.lineBreak then (offset + 1) :: startsAfterBytes (offset + 1) bytes
    else startsAfterBytes (offset + 1) bytes

/-- The line breaks of two stretches of bytes are those of the first, then of the second. -/
theorem startsAfterBytes_append (offset : Nat) (as bs : List UInt8) :
    startsAfterBytes offset (as ++ bs) =
      startsAfterBytes offset as ++ startsAfterBytes (offset + as.length) bs := by
  induction as generalizing offset with
  | nil => rfl
  | cons byte as ih =>
      have hlength : offset + (byte :: as).length = offset + 1 + as.length := by
        rw [List.length_cons]
        omega
      rw [List.cons_append, startsAfterBytes, startsAfterBytes, hlength, ih]
      split <;> rfl

/-- Every line break starts a line. -/
theorem length_startsAfterBytes (offset : Nat) (bytes : List UInt8) :
    (startsAfterBytes offset bytes).length = bytes.count Text.lineBreak := by
  induction bytes generalizing offset with
  | nil => rfl
  | cons byte bytes ih =>
      rw [startsAfterBytes, List.count_cons]
      by_cases hbreak : byte = Text.lineBreak
      · simp [hbreak, ih]
      · simp [hbreak, ih]

/-- The lines of a stretch of bytes start behind its first byte, and no later than
at its end. -/
theorem bounds_of_mem_startsAfterBytes {offset start : Nat} {bytes : List UInt8}
    (h : start ∈ startsAfterBytes offset bytes) :
    offset < start ∧ start ≤ offset + bytes.length := by
  induction bytes generalizing offset with
  | nil => contradiction
  | cons byte bytes ih =>
      rw [List.length_cons]
      rw [startsAfterBytes] at h
      split at h
      · rcases List.mem_cons.mp h with rfl | hmem
        · omega
        · have hbounds := ih hmem
          omega
      · have hbounds := ih h
        omega

/-- The offsets after line breaks grow. -/
theorem pairwise_startsAfterBytes (offset : Nat) (bytes : List UInt8) :
    (startsAfterBytes offset bytes).Pairwise (· < ·) := by
  induction bytes generalizing offset with
  | nil => exact .nil
  | cons byte bytes ih =>
      rw [startsAfterBytes]
      split
      · exact .cons (fun start hstart => (bounds_of_mem_startsAfterBytes hstart).1) (ih _)
      · exact ih _

/-- Where the lines of characters start can be told from their bytes. -/
theorem startsAfter_eq_map (offset : Nat) (cs : List Char) :
    startsAfter offset cs = (startsAfterBytes offset (Text.encode cs)).map word := by
  induction cs generalizing offset with
  | nil => rfl
  | cons c cs ih =>
      rw [startsAfter, Text.encode_cons, startsAfterBytes_append, String.length_utf8EncodeChar, ih]
      by_cases hbreak : c = '\n'
      · subst hbreak
        rfl
      · have hnone : startsAfterBytes offset (String.utf8EncodeChar c) = [] := by
          rw [← List.length_eq_zero_iff, length_startsAfterBytes, List.count_eq_zero]
          exact Text.lineBreak_notMem_utf8EncodeChar hbreak
        simp [hbreak, hnone]

/-- The offsets at which the lines of some bytes start. -/
def lineStarts (bytes : List UInt8) : List Nat :=
  0 :: startsAfterBytes 0 bytes

/-- The line table of a text holds the offsets at which its lines start. -/
theorem starts_ofSource (source : String) :
    (ofSource source).starts = (lineStarts (Text.bytes source)).map word := by
  rw [ofSource, startsAfter_eq_map, ← Text.bytes_eq_encode, lineStarts, List.map_cons]
  rfl

/-- Every line break of a text starts a line, behind the first one. -/
theorem size_ofSource (source : String) :
    (ofSource source).size = source.toList.count '\n' + 1 := by
  rw [size, starts_ofSource, List.length_map, lineStarts, List.length_cons,
    length_startsAfterBytes, Text.bytes_eq_encode, Text.count_encode]

theorem pairwise_lineStarts (bytes : List UInt8) : (lineStarts bytes).Pairwise (· < ·) :=
  .cons (fun _ hstart => (bounds_of_mem_startsAfterBytes hstart).1)
    (pairwise_startsAfterBytes 0 bytes)

/-- No line starts behind the end. -/
theorem le_length_of_mem_lineStarts {bytes : List UInt8} {start : Nat}
    (h : start ∈ lineStarts bytes) : start ≤ bytes.length := by
  rcases List.mem_cons.mp h with rfl | hmem
  · exact Nat.zero_le _
  · simpa using (bounds_of_mem_startsAfterBytes hmem).2

/-- A line starts at or before an offset for every line break before the offset,
and one more at zero. -/
theorem countP_lineStarts (bytes : List UInt8) (offset : Nat) :
    (lineStarts bytes).countP (· ≤ offset) = (bytes.take offset).count Text.lineBreak + 1 := by
  have hreached : (startsAfterBytes 0 (bytes.take offset)).countP (· ≤ offset) =
      (bytes.take offset).count Text.lineBreak := by
    rw [← length_startsAfterBytes 0, List.countP_eq_length]
    intro start hstart
    have hbounds := bounds_of_mem_startsAfterBytes hstart
    have hlength := bytes.length_take_le offset
    exact decide_eq_true (by omega)
  have hahead : (startsAfterBytes (0 + (bytes.take offset).length) (bytes.drop offset)).countP
      (· ≤ offset) = 0 := by
    rw [List.countP_eq_zero]
    intro start hstart hle
    have hbounds := bounds_of_mem_startsAfterBytes hstart
    have hstartLe := of_decide_eq_true hle
    rw [List.length_take, List.length_drop] at hbounds
    omega
  have hsplit : startsAfterBytes 0 bytes = startsAfterBytes 0 (bytes.take offset) ++
      startsAfterBytes (0 + (bytes.take offset).length) (bytes.drop offset) := by
    rw [← startsAfterBytes_append, List.take_append_drop]
  rw [lineStarts, List.countP_cons, hsplit, List.countP_append, hreached, hahead]
  simp

/-- The line after the last of some line breaks starts just behind it. -/
theorem getElem?_lineStarts_append {lines : List UInt8} (rest : List UInt8)
    (hlines : lines = [] ∨ ∃ front, lines = front ++ [Text.lineBreak]) :
    (lineStarts (lines ++ rest))[lines.count Text.lineBreak]? = some lines.length := by
  rcases hlines with rfl | ⟨front, rfl⟩
  · rfl
  · have hstarts : startsAfterBytes 0 (front ++ [Text.lineBreak]) =
        startsAfterBytes 0 front ++ [(front ++ [Text.lineBreak]).length] := by
      rw [startsAfterBytes_append, List.length_append]
      simp [startsAfterBytes]
    have hcount : (front ++ [Text.lineBreak]).count Text.lineBreak =
        (startsAfterBytes 0 front).length + 1 := by
      rw [length_startsAfterBytes, List.count_append]
      rfl
    rw [lineStarts, startsAfterBytes_append, hstarts, hcount, List.getElem?_cons_succ,
      List.append_assoc, List.getElem?_append_right (Nat.le_refl _), Nat.sub_self]
    rfl

/-- The line of an offset starts just behind the last line break before the offset. -/
theorem getElem?_lineStarts (bytes : List UInt8) (offset : Nat) :
    (lineStarts bytes)[(bytes.take offset).count Text.lineBreak]? =
      some ((bytes.take offset).rdropWhile (· ≠ Text.lineBreak)).length := by
  generalize hlines : (bytes.take offset).rdropWhile (· ≠ Text.lineBreak) = lines
  generalize hlast : (bytes.take offset).rtakeWhile (· ≠ Text.lineBreak) = last
  have hfront : bytes.take offset = lines ++ last := by
    rw [← hlines, ← hlast, List.rdropWhile_append_rtakeWhile]
  have hnone : last.count Text.lineBreak = 0 :=
    hlast ▸ Text.count_rtakeWhile_ne Text.lineBreak (bytes.take offset)
  have hfull : lines = [] ∨ ∃ front, lines = front ++ [Text.lineBreak] :=
    hlines ▸ Text.rdropWhile_ne_eq Text.lineBreak (bytes.take offset)
  have hbytes : bytes = lines ++ (last ++ bytes.drop offset) := by
    rw [← List.append_assoc, ← hfront, List.take_append_drop]
  have hcount : (bytes.take offset).count Text.lineBreak = lines.count Text.lineBreak := by
    rw [hfront, List.count_append, hnone, Nat.add_zero]
  rw [hcount, hbytes]
  exact getElem?_lineStarts_append _ hfull

/-! ## Looking up lines -/

/-- The line of an offset is the number of line breaks among the bytes before it,
counted from one, where the starts of lines compare with the offset as words. -/
theorem lineAt_eq_ordinal {source : String} {offset : UInt32}
    (hword : ∀ start ∈ lineStarts (Text.bytes source),
      word start ≤ offset ↔ start ≤ offset.toNat) :
    (ofSource source).lineAt offset =
      ordinal (((Text.bytes source).take offset.toNat).count Text.lineBreak) := by
  have hcount : (ofSource source).starts.countP (· ≤ offset) =
      (lineStarts (Text.bytes source)).countP (· ≤ offset.toNat) := by
    rw [starts_ofSource, List.countP_map]
    apply List.countP_congr
    intro start hstart
    simp [hword start hstart]
  rw [lineAt, hcount, countP_lineStarts, Nat.add_sub_cancel]

section Lookup

variable {source : String} (hsize : source.utf8ByteSize ≤ Span.maxOffset)

include hsize

/-- The start of a line keeps its value as a word when the text is not too long. -/
theorem toNat_of_mem_lineStarts {start : Nat} (h : start ∈ lineStarts (Text.bytes source)) :
    (word start).toNat = start :=
  toNat_word ((le_length_of_mem_lineStarts h).trans hsize)

/-- The line of an offset is the number of line breaks among the bytes before it,
counted from one. -/
theorem lineAt_ofSource (offset : UInt32) :
    (ofSource source).lineAt offset =
      ordinal (((Text.bytes source).take offset.toNat).count Text.lineBreak) := by
  apply lineAt_eq_ordinal
  intro start hstart
  rw [UInt32.le_iff_toNat_le, toNat_of_mem_lineStarts hsize hstart]

end Lookup

/-- There are no more lines than bytes before an offset, counted from one. -/
theorem count_take_lt {source : String} (hsize : source.utf8ByteSize < Span.maxOffset) (n : Nat) :
    ((Text.bytes source).take n).count Text.lineBreak < Span.maxOffset := by
  have hle := List.count_le_length (a := Text.lineBreak) (l := (Text.bytes source).take n)
  have htake := (Text.bytes source).length_take_le' n
  rw [Text.length_bytes] at htake
  omega

/-- A line that is numbered by the line breaks before it. -/
theorem lineStart?_ordinal {source : String} {index : Nat} (h : index < Span.maxOffset) :
    (ofSource source).lineStart? (ordinal index) =
      (lineStarts (Text.bytes source))[index]?.map word := by
  have hnat := toNat_ordinal h
  have hne : (ordinal index == 0) = false := by
    apply beq_false_of_ne
    intro hzero
    rw [hzero] at hnat
    contradiction
  rw [lineStart?, hne, hnat, Nat.add_sub_cancel, starts_ofSource, List.getElem?_map]
  rfl

/-- The line of an offset starts just behind the last line break before the offset. -/
theorem lineStart?_lineAt {source : String} (hsize : source.utf8ByteSize < Span.maxOffset)
    (offset : UInt32) :
    (ofSource source).lineStart? ((ofSource source).lineAt offset) =
      some (word
        (((Text.bytes source).take offset.toNat).rdropWhile (· ≠ Text.lineBreak)).length) := by
  rw [lineAt_ofSource (Nat.le_of_lt hsize), lineStart?_ordinal (count_take_lt hsize _),
    getElem?_lineStarts, Option.map_some]

end LineTable

/-! ## Positions between characters -/

/-- The bytes before an offset that stands between two characters. -/
theorem Text.take_bytes {source : String} {before after : List Char} {offset : Nat}
    (hparts : source.toList = before ++ after)
    (hoffset : Text.byteSize before = min offset source.utf8ByteSize) :
    (Text.bytes source).take offset = Text.encode before := by
  have hbytes : Text.bytes source = Text.encode before ++ Text.encode after := by
    rw [Text.bytes_eq_encode, hparts, Text.encode_append]
  rw [List.take_eq_take_min, Text.length_bytes, ← hoffset, ← Text.length_encode, hbytes,
    List.take_left]

/-- The position of an offset between two characters counts the line breaks before
it and the characters after the last of them.  An offset past the end counts as the
end. -/
theorem positionIn_eq {source : String} {before after : List Char} {offset : UInt32}
    (hparts : source.toList = before ++ after)
    (hoffset : Text.byteSize before = min offset.toNat source.utf8ByteSize)
    (hsize : source.utf8ByteSize < Span.maxOffset) :
    positionIn source offset =
      ⟨LineTable.ordinal (before.count '\n'),
        LineTable.ordinal (before.rtakeWhile (· ≠ '\n')).length⟩ := by
  obtain ⟨lines, hcut, hlines, hlast⟩ := Text.exists_lastLine before
  generalize hline : before.rtakeWhile (· ≠ '\n') = line at hcut hlast ⊢
  have htake := Text.take_bytes hparts hoffset
  have hstart := LineTable.lineStart?_lineAt hsize offset
  rw [htake, hcut, Text.rdropWhile_encode hlines hlast, Text.length_encode] at hstart
  have hstop : min offset.toNat source.utf8ByteSize =
      Text.byteSize lines + Text.byteSize line := by
    rw [← hoffset, hcut, Text.byteSize_append]
  have hfull : source.toList = lines ++ line ++ after := by rw [hparts, hcut]
  rw [positionIn, LineTable.positionAt, hstart, Option.getD_some,
    LineTable.toNat_word (by omega), hstop, Text.slice?_append hfull,
    LineTable.lineAt_ofSource (Nat.le_of_lt hsize), htake, Text.count_encode]
  simp

/-- The position of an offset between two characters counts the line breaks before
it and the characters after the last of them. -/
theorem positionIn_isAt {source : String} {before after : List Char} {offset : UInt32}
    (hparts : source.toList = before ++ after) (hoffset : Text.byteSize before = offset.toNat)
    (hsize : source.utf8ByteSize < Span.maxOffset) :
    (positionIn source offset).IsAt source offset.toNat := by
  have hbytes := Text.utf8ByteSize_eq hparts
  -- Lines and columns are counted in characters, of which there are no more than bytes.
  have hlength := Text.length_le_byteSize before
  have hcount := List.count_le_length (a := '\n') (l := before)
  have hline := (List.rtakeWhile_suffix (· ≠ '\n') before).length_le
  rw [positionIn_eq hparts (by omega) hsize]
  refine ⟨before, after, hparts, hoffset, ?_, ?_⟩
  · rw [LineTable.toNat_ordinal (by omega), Nat.add_comm]
  · rw [LineTable.toNat_ordinal (by omega), Nat.add_comm]

end ScriptLowering
