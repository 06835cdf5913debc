import ScriptLowering.Proofs.QueueHistory

/-!
# Flushing in order

Flushing a queue puts its diagnostics in the order of their positions, and those at
one position in the order in which they were added.  There is only one such order,
so it makes no difference that a queue whose neighbouring entries are in order is
not sorted at all.  A flush leaves nothing behind but the configuration: whatever
was done to a queue before, it goes on as a fresh one.

Main results:

- Definition `IsStableSort`: a list in the order of a key, ties in their old order.
- Theorem `isStableSort_mergeSort`: merge sort puts a list in such an order.
- Theorem `IsStableSort.unique`: a list has only one such order.
- Theorem `Queue.isSorted_iff_pairwise`: neighbours in order are enough.
- Theorem `Queue.performAll_append_flush`: what is done after a flush does not depend
  on what was done before.
- Theorem `Queue.flush_sortsAndResets`: what a flush gives and what it leaves.
-/

namespace ScriptLowering

/-! ## Stable orders -/

/-- A list is put in the order of a key: it holds the same elements, their keys
ascend, and the elements of one key stand in the order in which they stood before. -/
structure IsStableSort {α κ : Type} [DecidableEq κ] (le : κ → κ → Bool) (key : α → κ)
    (list sorted : List α) : Prop where
  perm : sorted.Perm list
  ascending : sorted.Pairwise fun a b => le (key a) (key b)
  stable (k : κ) :
    sorted.filter (fun a => decide (key a = k)) = list.filter fun a => decide (key a = k)

section Orders

variable {α κ : Type} [DecidableEq κ] {le : κ → κ → Bool} {key : α → κ}

/-- Merge sort puts a list in the order of a key. -/
theorem isStableSort_mergeSort (htrans : ∀ a b c, le a b → le b c → le a c)
    (htotal : ∀ a b, le a b || le b a) (list : List α) :
    IsStableSort le key list (list.mergeSort fun a b => le (key a) (key b)) := by
  have htrans' : ∀ a b c : α, le (key a) (key b) → le (key b) (key c) → le (key a) (key c) :=
    fun a b c => htrans (key a) (key b) (key c)
  have htotal' : ∀ a b : α, le (key a) (key b) || le (key b) (key a) :=
    fun a b => htotal (key a) (key b)
  have hperm := List.mergeSort_perm list fun a b => le (key a) (key b)
  refine ⟨hperm, List.pairwise_mergeSort htrans' htotal' list, fun k => ?_⟩
  -- The elements of one key are in order already, so sorting keeps them as a sublist.
  have hties : (list.filter fun a => decide (key a = k)).Pairwise
      fun a b => le (key a) (key b) := by
    refine List.pairwise_of_forall_mem_list fun a ha b hb => ?_
    have hkey := of_decide_eq_true (List.mem_filter.mp ha).2
    have hkey' := of_decide_eq_true (List.mem_filter.mp hb).2
    have hself := htotal k k
    rw [Bool.or_self] at hself
    rw [hkey, hkey', hself]
  have hkept := List.sublist_mergeSort htrans' htotal' hties List.filter_sublist
  have hfiltered := hkept.filter fun a => decide (key a = k)
  rw [List.filter_filter] at hfiltered
  simp only [Bool.and_self] at hfiltered
  exact (hfiltered.eq_of_length (hperm.filter _).length_eq.symm).symm

/-- A list has only one stable order when no two keys are each before the other. -/
theorem IsStableSort.unique (hrefl : ∀ a, le a a) (hanti : ∀ a b, le a b → le b a → a = b)
    {list sorted sorted' : List α} (h : IsStableSort le key list sorted)
    (h' : IsStableSort le key list sorted') : sorted = sorted' := by
  have hperm : sorted.Perm sorted' := h.perm.trans h'.perm.symm
  have hstable : ∀ k, sorted.filter (fun a => decide (key a = k)) =
      sorted'.filter fun a => decide (key a = k) := fun k => (h.stable k).trans (h'.stable k).symm
  have hascending := h.ascending
  have hascending' := h'.ascending
  clear h h'
  induction sorted generalizing sorted' with
  | nil => exact hperm.nil_eq
  | cons a sorted ih =>
      rcases sorted' with _ | ⟨b, sorted'⟩
      · exact absurd hperm.eq_nil (List.cons_ne_nil _ _)
      · obtain ⟨hfirst, hrest⟩ := List.pairwise_cons.mp hascending
        obtain ⟨hfirst', hrest'⟩ := List.pairwise_cons.mp hascending'
        -- Either list begins with a smallest key, so they begin with one key.
        have hle : le (key a) (key b) := by
          rcases List.mem_cons.mp (hperm.mem_iff.mpr List.mem_cons_self) with rfl | hb
          · exact hrefl _
          · exact hfirst b hb
        have hle' : le (key b) (key a) := by
          rcases List.mem_cons.mp (hperm.mem_iff.mp List.mem_cons_self) with rfl | ha
          · exact hrefl _
          · exact hfirst' a ha
        have hkey : key b = key a := hanti _ _ hle' hle
        have hties := hstable (key a)
        simp only [List.filter_cons, hkey, decide_true, if_true] at hties
        obtain ⟨rfl, -⟩ := List.cons.inj hties
        have htail : sorted = sorted' := by
          refine ih hperm.cons_inv (fun k => ?_) hrest hrest'
          have hties := hstable k
          rw [List.filter_cons, List.filter_cons] at hties
          split at hties
          · exact (List.cons.inj hties).2
          · exact hties
        rw [htail]

end Orders

/-! ## The order of positions -/

namespace Position

variable {a b : Position}

/-- Positions are compared by line first and by column within a line. -/
theorem isLe_iff : a.isLe b ↔ a.line < b.line ∨ a.line = b.line ∧ a.column ≤ b.column := by
  rw [isLe, Bool.or_eq_true, Bool.and_eq_true, decide_eq_true_iff, beq_iff_eq, decide_eq_true_iff]

/-- One position is no later than another when its line and column are, compared as
pairs of numbers. -/
theorem isLe_iff_toNat :
    a.isLe b ↔ a.line.toNat < b.line.toNat ∨
      a.line.toNat = b.line.toNat ∧ a.column.toNat ≤ b.column.toNat := by
  rw [isLe_iff, UInt32.lt_iff_toNat_lt, UInt32.le_iff_toNat_le, UInt32.toNat_inj]

theorem isLe_refl (a : Position) : a.isLe a :=
  isLe_iff_toNat.mpr (Or.inr ⟨rfl, Nat.le_refl _⟩)

theorem isLe_trans (a b c : Position) (hab : a.isLe b) (hbc : b.isLe c) : a.isLe c := by
  rw [isLe_iff_toNat] at hab hbc ⊢
  omega

theorem isLe_total (a b : Position) : a.isLe b || b.isLe a := by
  rw [Bool.or_eq_true, isLe_iff_toNat, isLe_iff_toNat]
  omega

theorem isLe_antisymm (a b : Position) (hab : a.isLe b) (hba : b.isLe a) : a = b := by
  obtain ⟨line, column⟩ := a
  obtain ⟨line', column'⟩ := b
  simp only [isLe_iff_toNat] at hab hba
  obtain rfl : line = line' := UInt32.toNat_inj.mp (by omega)
  obtain rfl : column = column' := UInt32.toNat_inj.mp (by omega)
  rfl

end Position

namespace Queue

variable {digest : Digest}

/-! ## Sorting entries -/

/-- Entries are in order as soon as every two neighbours are. -/
theorem isSorted_iff_pairwise {entries : List QueueEntry} :
    isSorted entries ↔ entries.Pairwise fun a b => entryIsLe a b := by
  induction entries with
  | nil => simp [isSorted]
  | cons a rest ih =>
      rcases rest with _ | ⟨b, rest⟩
      · simp [isSorted]
      · rw [isSorted, Bool.and_eq_true, ih]
        constructor
        · rintro ⟨hab, hrest⟩
          refine List.pairwise_cons.mpr ⟨fun other hother => ?_, hrest⟩
          rcases List.mem_cons.mp hother with rfl | hother
          · exact hab
          · exact Position.isLe_trans _ _ _ hab ((List.pairwise_cons.mp hrest).1 other hother)
        · intro hall
          obtain ⟨hfirst, hrest⟩ := List.pairwise_cons.mp hall
          exact ⟨hfirst b List.mem_cons_self, hrest⟩

/-- Leaving entries in order alone is sorting them. -/
theorem sorted_eq_mergeSort (entries : List QueueEntry) :
    sorted entries = entries.mergeSort entryIsLe := by
  unfold sorted
  split
  · rename_i hsorted
    exact (List.mergeSort_of_pairwise (isSorted_iff_pairwise.mp hsorted)).symm
  · rfl

/-- Entries are put in the order of their positions. -/
theorem isStableSort_sorted (entries : List QueueEntry) :
    IsStableSort Position.isLe QueueEntry.position entries (sorted entries) := by
  have hsort : IsStableSort Position.isLe QueueEntry.position entries
      (entries.mergeSort fun a b => a.position.isLe b.position) :=
    isStableSort_mergeSort Position.isLe_trans Position.isLe_total entries
  rw [sorted_eq_mergeSort]
  exact hsort

/-! ## Operations on a queue -/

/-- What a caller does to a queue. -/
inductive Operation (digest : Digest) where
  | add (diagnostic : Diagnostic) (position : Position)
  | emit (diagnostic : Diagnostic) (position : Position)
  | emitWithTable (diagnostic : Diagnostic) (table : LineTable) (source : String)
  | emitWithSource (diagnostic : Diagnostic) (source : String)
  | merge (other : Queue digest)
  | flush

/-- What an operation gives the caller: whether a diagnostic was added, the sign of a
report, how many diagnostics were taken over, or the diagnostics that were given up. -/
inductive Answer where
  | added (taken : Bool)
  | reported (guarantee : ErrorGuarantee)
  | merged (count : Nat)
  | flushed (given : List Diagnostic)
deriving DecidableEq

/-- Performs an operation. -/
def perform (queue : Queue digest) : Operation digest → Answer × Queue digest
  | .add diagnostic position => (queue.add diagnostic position).map .added id
  | .emit diagnostic position => (queue.emit diagnostic position).map .reported id
  | .emitWithTable diagnostic table source =>
    (queue.emitWithTable diagnostic table source).map .reported id
  | .emitWithSource diagnostic source => (queue.emitWithSource diagnostic source).map .reported id
  | .merge other => (queue.merge other).map .merged id
  | .flush => queue.flush.map .flushed id

/-- Performs operations one after the other. -/
def performAll (queue : Queue digest) :
    List (Operation digest) → List Answer × Queue digest
  | [] => ([], queue)
  | operation :: operations =>
    let first := queue.perform operation
    let others := first.2.performAll operations
    (first.1 :: others.1, others.2)

/-- No operation changes the configuration. -/
theorem config_perform (queue : Queue digest) (operation : Operation digest) :
    (queue.perform operation).2.config = queue.config := by
  cases operation with
  | add diagnostic position => exact queue.config_add diagnostic position
  | emit diagnostic position => exact queue.config_add diagnostic position
  | emitWithTable diagnostic table source => exact queue.config_add diagnostic _
  | emitWithSource diagnostic source => exact queue.config_add diagnostic _
  | merge other => rfl
  | flush => rfl

theorem config_performAll (queue : Queue digest) (operations : List (Operation digest)) :
    (queue.performAll operations).2.config = queue.config := by
  induction operations generalizing queue with
  | nil => rfl
  | cons operation operations ih => exact (ih _).trans (queue.config_perform operation)

/-- Operations are performed in two goes as in one. -/
theorem performAll_append (queue : Queue digest) (before after : List (Operation digest)) :
    queue.performAll (before ++ after) =
      ((queue.performAll before).1 ++ ((queue.performAll before).2.performAll after).1,
        ((queue.performAll before).2.performAll after).2) := by
  induction before generalizing queue with
  | nil => rfl
  | cons operation before ih =>
      rw [List.cons_append, performAll, ih]
      rfl

/-- What is done after a flush does not depend on what was done before: the answers
and the queue in the end are those of a fresh queue with the same configuration. -/
theorem performAll_append_flush (queue : Queue digest) (before after : List (Operation digest)) :
    queue.performAll (before ++ .flush :: after) =
      ((queue.performAll (before ++ [.flush])).1 ++ ((ofConfig queue.config).performAll after).1,
        ((ofConfig queue.config).performAll after).2) := by
  have hfresh : (queue.performAll (before ++ [.flush])).2 = ofConfig queue.config := by
    rw [performAll_append]
    exact congrArg ofConfig (queue.config_performAll before)
  rw [List.append_cons, performAll_append, hfresh]

/-! ## What a flush does -/

/-- A flush gives up the diagnostics of a queue in the only stable order of their
positions, whether or not they have to be sorted for it.  It leaves the queue as a
fresh one with the same configuration, and so does every flush later on: operations
after it never tell what was done before. -/
structure SortsAndResets (queue : Queue digest) : Prop where
  gives : ∃ given : List QueueEntry, queue.flush.1 = given.map QueueEntry.diagnostic ∧
    IsStableSort Position.isLe QueueEntry.position queue.entries given ∧
    ∀ other, IsStableSort Position.isLe QueueEntry.position queue.entries other → other = given
  gives_mergeSort : queue.flush.1 = (queue.entries.mergeSort entryIsLe).map QueueEntry.diagnostic
  gives_diagnostics (h : isSorted queue.entries) : queue.flush.1 = queue.diagnostics
  leaves : queue.flush.2 = ofConfig queue.config
  forgets (before after : List (Operation digest)) : queue.performAll (before ++ .flush :: after) =
    ((queue.performAll (before ++ [.flush])).1 ++ ((ofConfig queue.config).performAll after).1,
      ((ofConfig queue.config).performAll after).2)

/-- Every queue is sorted and reset by a flush, whatever it holds. -/
theorem flush_sortsAndResets (queue : Queue digest) : queue.SortsAndResets where
  gives := by
    have hsorted := isStableSort_sorted queue.entries
    refine ⟨sorted queue.entries, rfl, hsorted, fun other hother => ?_⟩
    exact hother.unique Position.isLe_refl Position.isLe_antisymm hsorted
  gives_mergeSort := by rw [flush, sorted_eq_mergeSort]
  gives_diagnostics h := by rw [flush, sorted, if_pos h, diagnostics]
  leaves := rfl
  forgets := queue.performAll_append_flush

/-- An error that says where it was added. -/
def tiedError (message : String) : Diagnostic :=
  { code := .e1001, severity := .error, message := message }

/-- A queue with two errors at one position, between one that stands behind them and
one that stands before them. -/
def tiedQueue : Queue .exact :=
  (ofConfig .unlimited).addAll
    [ ⟨tiedError "first", ⟨3, 1⟩⟩, ⟨tiedError "second", ⟨2, 7⟩⟩,
      ⟨tiedError "third", ⟨2, 7⟩⟩, ⟨tiedError "fourth", ⟨2, 5⟩⟩]

/-- The two errors at one position come out as they were added. -/
theorem flush_sortsAndResets_tiedQueue :
    isSorted tiedQueue.entries = false ∧ tiedQueue.SortsAndResets ∧
      tiedQueue.flush.1.map Diagnostic.message = ["fourth", "second", "third", "first"] ∧
      tiedQueue.flush.2 = ofConfig .unlimited := by
  have hentries : tiedQueue.entries =
      [ ⟨tiedError "first", ⟨3, 1⟩⟩, ⟨tiedError "second", ⟨2, 7⟩⟩,
        ⟨tiedError "third", ⟨2, 7⟩⟩, ⟨tiedError "fourth", ⟨2, 5⟩⟩] := by decide
  refine ⟨by decide, flush_sortsAndResets tiedQueue, ?_, by decide⟩
  rw [flush, sorted_eq_mergeSort, hentries]
  simp [List.mergeSort, List.MergeSort.Internal.splitInTwo, entryIsLe, Position.isLe, tiedError]

end Queue
end ScriptLowering
