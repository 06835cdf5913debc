import ScriptLowering.Proofs.LinePositions

/-!
# Looking up lines and columns

A line table is searched for the last line that starts at or before an offset.
The starts of lines are in order and no two are the same, so a search finds
exactly one line, whether the offset stands at the start of a line, inside a line,
inside a character, or past the end of the text.  Offsets between characters come
in the order of their lines and columns.

Main results:

- Theorem `LineTable.Finds.lineAt_eq`: whatever a search among the starts answers
  is the line of the offset.
- Theorem `LineTable.lineAt_of_lineStart?`: a line is the line of its own start.
- Theorem `positionIn_precedes`: positions are in the order of offsets.
- Theorem `LineTable.ofSource_locates`: the table of a text that can be measured
  locates all offsets.
-/

namespace ScriptLowering

/-- An offset into a text stands between two of its characters, or at one of its ends. -/
def Text.IsBoundary (source : String) (offset : Nat) : Prop :=
  ∃ before after, source.toList = before ++ after ∧ Text.byteSize before = offset

/-! ## The order of positions -/

namespace Position

/-- One position comes before another: on an earlier line, or on the same line and
further to the left. -/
def Precedes (a b : Position) : Prop :=
  a.line < b.line ∨ a.line = b.line ∧ a.column < b.column

theorem Precedes.ne {a b : Position} (h : a.Precedes b) : a ≠ b := by
  rintro rfl
  rcases h with hline | ⟨-, hcolumn⟩
  · exact UInt32.lt_irrefl _ hline
  · exact UInt32.lt_irrefl _ hcolumn

end Position

namespace LineTable

/-! ## Searching among the starts of lines -/

/-- What a search for an offset among the starts of lines may answer: the index of
a start that is the offset, or the one before the index at which the offset would
have to be put to keep the starts in order. -/
inductive Finds (table : LineTable) (offset : UInt32) : Nat → Prop
  | exact {index : Nat} (hstart : table.starts[index]? = some offset) : Finds table offset index
  | insert {index : Nat} (hindex : index ≤ table.starts.length)
      (hbefore : ∀ start ∈ table.starts.take index, start < offset)
      (hafter : ∀ start ∈ table.starts.drop index, offset < start) :
      Finds table offset (index - 1)

section Search

variable {table : LineTable} {offset : UInt32} {index : Nat}

/-- The starts up to an index are those that are not behind the offset. -/
theorem countP_starts_eq (hindex : index ≤ table.starts.length)
    (hbefore : ∀ start ∈ table.starts.take index, start ≤ offset)
    (hafter : ∀ start ∈ table.starts.drop index, offset < start) :
    table.starts.countP (· ≤ offset) = index := by
  have hreached : (table.starts.take index).countP (· ≤ offset) = index := by
    rw [List.countP_eq_length.mpr (by simpa using hbefore), List.length_take,
      Nat.min_eq_left hindex]
  have hahead : (table.starts.drop index).countP (· ≤ offset) = 0 := by
    rw [List.countP_eq_zero]
    intro start hstart
    simpa using hafter start hstart
  rw [← List.take_append_drop index table.starts, List.countP_append, hreached, hahead,
    Nat.add_zero]

/-- Starts in order stand on the two sides of any one of them. -/
theorem lt_of_getElem?_starts (hsorted : table.starts.Pairwise (· < ·))
    (hstart : table.starts[index]? = some offset) :
    (∀ start ∈ table.starts.take (index + 1), start ≤ offset) ∧
      ∀ start ∈ table.starts.drop (index + 1), offset < start := by
  obtain ⟨hindex, hget⟩ := List.getElem?_eq_some_iff.mp hstart
  have hparts : table.starts.take (index + 1) = table.starts.take index ++ [offset] := by
    rw [List.take_add_one, hstart]
    rfl
  have hsplit := hsorted
  rw [← List.take_append_drop (index + 1) table.starts, hparts, List.pairwise_append,
    List.pairwise_append] at hsplit
  obtain ⟨⟨-, -, hbefore⟩, -, hafter⟩ := hsplit
  constructor
  · intro start hmem
    rw [hparts] at hmem
    rcases List.mem_append.mp hmem with hmem | hmem
    · exact UInt32.le_of_lt (hbefore start hmem offset (List.mem_singleton_self offset))
    · rw [List.mem_singleton.mp hmem]
      exact UInt32.le_refl offset
  · exact hafter offset (by simp)

/-- Whatever a search among the starts answers is the line of the offset. -/
theorem Finds.lineAt_eq (h : table.Finds offset index)
    (hsorted : table.starts.Pairwise (· < ·)) : table.lineAt offset = ordinal index := by
  cases h with
  | exact hstart =>
      obtain ⟨hindex, -⟩ := List.getElem?_eq_some_iff.mp hstart
      obtain ⟨hbefore, hafter⟩ := lt_of_getElem?_starts hsorted hstart
      rw [lineAt, countP_starts_eq hindex hbefore hafter]
      rfl
  | insert hindex hbefore hafter =>
      have hle := fun start hstart => UInt32.le_of_lt (hbefore start hstart)
      rw [lineAt, countP_starts_eq hindex hle hafter]

/-- A search among starts answers the index of one of them. -/
theorem Finds.lt_size (h : table.Finds offset index) (hne : table.starts ≠ []) :
    index < table.size := by
  cases h with
  | exact hstart => exact (List.getElem?_eq_some_iff.mp hstart).1
  | insert hindex _ _ =>
      have hpos := List.length_pos_of_ne_nil hne
      unfold size
      omega

/-- Behind the starts before an offset there are only starts that are not before it. -/
theorem le_of_mem_dropWhile (hsorted : table.starts.Pairwise (· < ·)) :
    ∀ start ∈ table.starts.dropWhile (· < offset), offset ≤ start := by
  have hsublist := hsorted.sublist (List.dropWhile_sublist (· < offset))
  have hstop := List.head?_dropWhile_not (decide <| · < offset) table.starts
  generalize table.starts.dropWhile (· < offset) = after at hsublist hstop
  cases after with
  | nil => nofun
  | cons first rest =>
      have hfirst : offset ≤ first := UInt32.not_lt.mp (of_decide_eq_false hstop)
      refine List.forall_mem_cons.mpr ⟨hfirst, ?_⟩
      intro start hstart
      have hlater := (List.pairwise_cons.mp hsublist).1 start hstart
      exact UInt32.le_trans hfirst (UInt32.le_of_lt hlater)

/-- A search among starts in order has an answer. -/
theorem exists_finds (hsorted : table.starts.Pairwise (· < ·)) (offset : UInt32) :
    ∃ index, table.Finds offset index := by
  by_cases hmem : offset ∈ table.starts
  · obtain ⟨index, hstart⟩ := List.mem_iff_getElem?.mp hmem
    exact ⟨index, .exact hstart⟩
  · have hparts : table.starts.takeWhile (· < offset) ++ table.starts.dropWhile (· < offset) =
        table.starts := List.takeWhile_append_dropWhile
    have htake := congrArg (List.take (table.starts.takeWhile (· < offset)).length) hparts
    have hdrop := congrArg (List.drop (table.starts.takeWhile (· < offset)).length) hparts
    rw [List.take_left] at htake
    rw [List.drop_left] at hdrop
    refine ⟨_, .insert (List.takeWhile_sublist (· < offset)).length_le ?_ ?_⟩
    · intro start hstart
      rw [← htake] at hstart
      simpa using List.mem_takeWhile_imp hstart
    · intro start hstart
      rw [← hdrop] at hstart
      refine UInt32.lt_of_le_of_ne (le_of_mem_dropWhile hsorted start hstart) ?_
      rintro rfl
      exact hmem ((List.dropWhile_sublist _).subset hstart)

end Search

/-! ## The table of a text -/

section OfSource

variable {source : String} (hsize : source.utf8ByteSize < Span.maxOffset)

include hsize

/-- A text has at most one more line than it has bytes. -/
theorem size_ofSource_le : (ofSource source).size ≤ Span.maxOffset := by
  have hcount := List.count_le_length (a := '\n') (l := source.toList)
  have hlength := Text.length_le_byteSize source.toList
  rw [Text.byteSize_toList] at hlength
  rw [size_ofSource]
  omega

/-- The starts of the lines of a text are in order. -/
theorem pairwise_starts_ofSource : (ofSource source).starts.Pairwise (· < ·) := by
  have hmeasured := Nat.le_of_lt hsize
  rw [starts_ofSource, List.pairwise_map]
  refine (pairwise_lineStarts (Text.bytes source)).imp_of_mem ?_
  intro start next hstart hnext hlt
  rw [UInt32.lt_iff_toNat_lt, toNat_of_mem_lineStarts hmeasured hstart,
    toNat_of_mem_lineStarts hmeasured hnext]
  exact hlt

/-- A search among the starts answers the index of the line of the offset. -/
theorem finds_iff {offset : UInt32} {index : Nat} :
    (ofSource source).Finds offset index ↔ ((ofSource source).lineAt offset).toNat = index + 1 := by
  have hsorted := pairwise_starts_ofSource hsize
  have hnumber : ∀ {found : Nat}, (ofSource source).Finds offset found →
      ((ofSource source).lineAt offset).toNat = found + 1 := by
    intro found hfound
    have hbound := hfound.lt_size (List.cons_ne_nil _ _)
    have hlines := size_ofSource_le hsize
    rw [hfound.lineAt_eq hsorted, toNat_ordinal (by omega)]
  constructor
  · exact hnumber
  · intro hindex
    obtain ⟨found, hfound⟩ := exists_finds hsorted offset
    have hfoundIndex := hnumber hfound
    obtain rfl : found = index := by omega
    exact hfound

/-- A line is the line of its own start. -/
theorem lineAt_of_lineStart? {line start : UInt32}
    (hstart : (ofSource source).lineStart? line = some start) :
    (ofSource source).lineAt start = line := by
  unfold lineStart? at hstart
  split at hstart
  · contradiction
  · rename_i hline
    have hfound := (finds_iff hsize).mp (.exact hstart)
    have hne : line.toNat ≠ 0 := fun hzero => hline (by simpa using UInt32.toNat_inj.mp hzero)
    apply UInt32.toNat_inj.mp
    omega

omit hsize in
/-- Every line of a text has a start. -/
theorem exists_lineStart? {line : UInt32} (hfirst : 1 ≤ line.toNat)
    (hlast : line.toNat ≤ (ofSource source).size) :
    ∃ start, (ofSource source).lineStart? line = some start := by
  have hne : (line == 0) = false := beq_false_of_ne (by rintro rfl; contradiction)
  have hindex : line.toNat - 1 < (ofSource source).starts.length := by
    unfold size at hlast
    omega
  exact ⟨_, by rw [lineStart?, hne]; exact List.getElem?_eq_getElem hindex⟩

end OfSource

end LineTable

/-! ## Columns and the order of offsets -/

section Columns

variable {source : String} (hsize : source.utf8ByteSize < Span.maxOffset)

include hsize

/-- The column of an offset between two characters counts the characters from the
start of its line. -/
theorem column_positionIn {offset : UInt32}
    (hoffset : Text.IsBoundary source (min offset.toNat source.utf8ByteSize)) :
    ∃ lines line after start, source.toList = lines ++ line ++ after ∧
      (LineTable.ofSource source).lineStart? ((LineTable.ofSource source).lineAt offset) =
        some start ∧
      Text.byteSize lines = start.toNat ∧
      Text.byteSize (lines ++ line) = min offset.toNat source.utf8ByteSize ∧
      (positionIn source offset).column.toNat = 1 + line.length := by
  obtain ⟨before, after, hparts, hbytes⟩ := hoffset
  obtain ⟨lines, hcut, hlines, hlast⟩ := Text.exists_lastLine before
  have hposition := positionIn_eq hparts hbytes hsize
  generalize before.rtakeWhile (· ≠ '\n') = line at hcut hlast hposition
  have hstart := LineTable.lineStart?_lineAt hsize offset
  rw [Text.take_bytes hparts hbytes, hcut, Text.rdropWhile_encode hlines hlast,
    Text.length_encode] at hstart
  have hsizes : Text.byteSize lines + Text.byteSize line =
      min offset.toNat source.utf8ByteSize := by
    rw [← hbytes, hcut, Text.byteSize_append]
  have hlength := Text.length_le_byteSize line
  refine ⟨lines, line, after, _, by rw [hparts, hcut], hstart, ?_, by rw [← hcut, hbytes], ?_⟩
  · rw [LineTable.toNat_word (by omega)]
  · rw [hposition, LineTable.toNat_ordinal (by omega), Nat.add_comm]

/-- Offsets between characters are in the order of their positions. -/
theorem positionIn_precedes {a b : UInt32} (ha : Text.IsBoundary source a.toNat)
    (hb : Text.IsBoundary source b.toNat) (hlt : a < b) :
    (positionIn source a).Precedes (positionIn source b) := by
  obtain ⟨before, after, hparts, hbytes⟩ := ha
  obtain ⟨before', after', hparts', hbytes'⟩ := hb
  rw [UInt32.lt_iff_toNat_lt, ← hbytes, ← hbytes'] at hlt
  obtain ⟨middle, rfl⟩ := Text.exists_append_of_byteSize_lt (hparts.symm.trans hparts') hlt
  have hsizes := Text.utf8ByteSize_eq hparts
  have hsizes' := Text.utf8ByteSize_eq hparts'
  have hlength := Text.length_le_byteSize (before ++ middle)
  rw [positionIn_eq hparts (by omega) hsize, positionIn_eq hparts' (by omega) hsize]
  by_cases hbreak : '\n' ∈ middle
  · -- A line break between the offsets puts the second one on a later line.
    left
    have hcount := List.count_le_length (a := '\n') (l := before ++ middle)
    have hpos := List.count_pos_iff.mpr hbreak
    have happend : (before ++ middle).count '\n' = before.count '\n' + middle.count '\n' :=
      List.count_append
    exact LineTable.ordinal_lt_ordinal (by omega) (by omega)
  · -- Otherwise they are on one line, with the characters between them.
    right
    have hline := Text.rtakeWhile_ne_append '\n' before hbreak
    have hcount : (before ++ middle).count '\n' = before.count '\n' := by
      rw [List.count_append, List.count_eq_zero.mpr hbreak, Nat.add_zero]
    have hpos : 0 < middle.length := by
      rw [List.length_pos_iff]
      rintro rfl
      simp at hlt
    have hsuffix := (List.rtakeWhile_suffix (· ≠ '\n') (before ++ middle)).length_le
    rw [hline, List.length_append] at hsuffix
    rw [hcount, hline, List.length_append]
    exact ⟨rfl, LineTable.ordinal_lt_ordinal (by omega) (by omega)⟩

/-- No two offsets between characters have one position. -/
theorem eq_of_positionIn_eq {a b : UInt32} (ha : Text.IsBoundary source a.toNat)
    (hb : Text.IsBoundary source b.toNat) (heq : positionIn source a = positionIn source b) :
    a = b := by
  rcases Nat.lt_trichotomy a.toNat b.toNat with hlt | hab | hlt
  · exact absurd heq (positionIn_precedes hsize ha hb (UInt32.lt_iff_toNat_lt.mpr hlt)).ne
  · exact UInt32.toNat_inj.mp hab
  · exact absurd heq.symm (positionIn_precedes hsize hb ha (UInt32.lt_iff_toNat_lt.mpr hlt)).ne

end Columns

/-! ## All offsets of a text -/

namespace LineTable

/-- The table of a text locates all offsets: it numbers their lines by the line
breaks before them, it knows where each line starts, and the positions of offsets
between characters are told apart by line and column. -/
structure Locates (source : String) : Prop where
  lineAt (offset : UInt32) :
    ((ofSource source).lineAt offset).toNat =
      1 + ((Text.bytes source).take offset.toNat).count Text.lineBreak
  finds (offset : UInt32) (index : Nat) :
    (ofSource source).Finds offset index ↔ ((ofSource source).lineAt offset).toNat = index + 1
  lineStart (offset : UInt32) :
    ∃ start, (ofSource source).lineStart? ((ofSource source).lineAt offset) = some start ∧
      start.toNat =
        (((Text.bytes source).take offset.toNat).rdropWhile (· ≠ Text.lineBreak)).length
  lines {line : UInt32} (hfirst : 1 ≤ line.toNat) (hlast : line.toNat ≤ (ofSource source).size) :
    ∃ start, (ofSource source).lineStart? line = some start ∧
      (ofSource source).lineAt start = line
  size_le : (ofSource source).size ≤ Span.maxOffset
  line (offset : UInt32) : (positionIn source offset).line = (ofSource source).lineAt offset
  column {offset : UInt32}
    (hoffset : Text.IsBoundary source (min offset.toNat source.utf8ByteSize)) :
    ∃ lines line after start, source.toList = lines ++ line ++ after ∧
      (ofSource source).lineStart? ((ofSource source).lineAt offset) = some start ∧
      Text.byteSize lines = start.toNat ∧
      Text.byteSize (lines ++ line) = min offset.toNat source.utf8ByteSize ∧
      (positionIn source offset).column.toNat = 1 + line.length
  inOrder {a b : UInt32} (ha : Text.IsBoundary source a.toNat)
    (hb : Text.IsBoundary source b.toNat) (hlt : a < b) :
    (positionIn source a).Precedes (positionIn source b)
  apart {a b : UInt32} (ha : Text.IsBoundary source a.toNat)
    (hb : Text.IsBoundary source b.toNat) (heq : positionIn source a = positionIn source b) :
    a = b

/-- The table of a text that can be measured locates all offsets. -/
theorem ofSource_locates {source : String} (hsize : source.utf8ByteSize < Span.maxOffset) :
    Locates source where
  lineAt offset := by
    have hcount := count_take_lt hsize offset.toNat
    rw [lineAt_ofSource (Nat.le_of_lt hsize), toNat_ordinal hcount, Nat.add_comm]
  finds _ _ := finds_iff hsize
  lineStart offset := by
    have hle := (List.rdropWhile_prefix (· ≠ Text.lineBreak)
      ((Text.bytes source).take offset.toNat)).length_le
    have htake := (Text.bytes source).length_take_le' offset.toNat
    rw [Text.length_bytes] at htake
    exact ⟨_, lineStart?_lineAt hsize offset, toNat_word (by omega)⟩
  lines hfirst hlast := by
    obtain ⟨start, hstart⟩ := exists_lineStart? hfirst hlast
    exact ⟨start, hstart, lineAt_of_lineStart? hsize hstart⟩
  size_le := size_ofSource_le hsize
  line _ := rfl
  column hoffset := column_positionIn hsize hoffset
  inOrder ha hb hlt := positionIn_precedes hsize ha hb hlt
  apart ha hb heq := eq_of_positionIn_eq hsize ha hb heq

/-- An empty line, and offsets inside a character, at a line break and past the end. -/
theorem locates_accentedLine :
    let source := "é\n\nab"
    source.utf8ByteSize < Span.maxOffset ∧ Locates source ∧
      [1, 2, 3, 4, 9].map (fun offset => ((ofSource source).lineAt offset).toNat) =
        [1, 1, 2, 3, 3] ∧
      positionIn source 9 = ⟨3, 3⟩ :=
  ⟨by decide, ofSource_locates (by decide), by decide, by decide⟩

end LineTable

end ScriptLowering
