/-!
# Source spans

A span is a half-open range of byte offsets into one source text.  Offsets are
32-bit words, so a position in a longer text cannot be represented and
`Span.ofRange` refuses it.  Merging two spans gives the smallest span that
starts no later and stops no earlier than either of them.
-/

namespace ScriptLowering

/-- A half-open range of byte offsets, `start` included and `stop` excluded. -/
structure Span where
  start : UInt32
  stop : UInt32
deriving DecidableEq

namespace Span

/-- The span of anything that was built without a position in a source text. -/
def unplaced : Span := ⟨0, 0⟩

instance : Inhabited Span := ⟨unplaced⟩

/-- The largest offset that a span can hold. -/
def maxOffset : Nat := 4294967295

/-! ## Checked construction -/

/-- An end of a range that no span can hold. -/
inductive RangeError where
  | startTooLarge (offset : Nat)
  | stopTooLarge (offset : Nat)
deriving DecidableEq

/-- The text shown for a range that no span can hold. -/
def RangeError.message : RangeError → String
  | .startTooLarge offset => s!"span start {offset} exceeds u32::MAX ({maxOffset})"
  | .stopTooLarge offset => s!"span end {offset} exceeds u32::MAX ({maxOffset})"

/-- The span of a range of offsets; when both ends are too large the start is named. -/
def ofRange (start stop : Nat) : Except RangeError Span :=
  if maxOffset < start then .error (.startTooLarge start)
  else if maxOffset < stop then .error (.stopTooLarge stop)
  else .ok ⟨UInt32.ofNat start, UInt32.ofNat stop⟩

/-- The two offsets of a span as a range. -/
def toRange (span : Span) : Nat × Nat :=
  (span.start.toNat, span.stop.toNat)

/-! ## Measuring and combining -/

/-- The number of bytes between the two ends; a reversed span has none. -/
def size (span : Span) : Nat :=
  span.stop.toNat - span.start.toNat

/-- A span is empty when its two ends coincide. -/
def isEmpty (span : Span) : Bool :=
  span.start == span.stop

/-- An offset lies inside a span when it is at or after the start and before the stop. -/
def contains (span : Span) (offset : UInt32) : Bool :=
  span.start ≤ offset && offset < span.stop

/-- The smaller start and the larger stop of two spans. -/
def merge (a b : Span) : Span :=
  ⟨min a.start b.start, max a.stop b.stop⟩

/-- The written form of a span: its two offsets around two dots. -/
protected def toString (span : Span) : String :=
  s!"{span.start}..{span.stop}"

instance : ToString Span := ⟨Span.toString⟩

@[simp]
theorem merge_start (a b : Span) : (a.merge b).start = min a.start b.start :=
  rfl

@[simp]
theorem merge_stop (a b : Span) : (a.merge b).stop = max a.stop b.stop :=
  rfl

/-- A merged span starts where the first of the two starts. -/
theorem toNat_merge_start (a b : Span) :
    (a.merge b).start.toNat = min a.start.toNat b.start.toNat := by
  change (if a.start ≤ b.start then a.start else b.start).toNat = _
  by_cases hle : a.start ≤ b.start
  · rw [if_pos hle, Nat.min_eq_left (UInt32.le_iff_toNat_le.mp hle)]
  · rw [if_neg hle]
    rw [UInt32.le_iff_toNat_le] at hle
    omega

/-- A merged span stops where the last of the two stops. -/
theorem toNat_merge_stop (a b : Span) :
    (a.merge b).stop.toNat = max a.stop.toNat b.stop.toNat := by
  change (if a.stop ≤ b.stop then b.stop else a.stop).toNat = _
  by_cases hle : a.stop ≤ b.stop
  · rw [if_pos hle, Nat.max_eq_right (UInt32.le_iff_toNat_le.mp hle)]
  · rw [if_neg hle]
    rw [UInt32.le_iff_toNat_le] at hle
    omega

/-- Merging a span with itself changes nothing. -/
@[simp]
theorem merge_self (a : Span) : a.merge a = a := by
  have start : min a.start a.start = a.start := ite_self a.start
  have stop : max a.stop a.stop = a.stop := ite_self a.stop
  rw [merge, start, stop]

end Span

end ScriptLowering
