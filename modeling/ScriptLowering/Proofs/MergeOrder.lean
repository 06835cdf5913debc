import Mathlib.Algebra.GroupWithZero.Nat
import Mathlib.Data.List.Perm.Basic
import ScriptLowering.Proofs.FlushOrder

/-!
# Merging in any order

Merging appends the diagnostics of a queue and leaves none of them out, so it makes
no difference how merges are grouped.  When several queues are merged one after the
other, their order decides in which order the diagnostics are queued, and nothing
else: a flush sorts them, so the positions come out the same, and so do the
diagnostics as long as no two of the queues hold diagnostics at one position.

Main results:

- Theorem `Queue.merge_merge`: merges can be grouped in any way.
- Theorem `filter_flatMap_eq_of_perm`: the order of lists does not matter to what only
  one of them holds.
- Theorem `Queue.map_position_sorted_of_perm`: the positions of sorted entries do not
  depend on the order of the entries.
- Theorem `Queue.sorted_mergeAll_of_perm`: queues that stand apart are flushed in one
  order, in whichever order they are merged.
- Theorem `Queue.mergesFreely`: merging filters nothing and depends neither on grouping
  nor on order.
-/

namespace ScriptLowering

/-! ## Lists in another order -/

section Lists

variable {α β : Type} {f : α → List β} {p : β → Bool} {as as' : List α}

/-- What is picked from lists one after the other does not depend on the order of the
lists when no two different ones hold something to pick. -/
theorem filter_flatMap_eq_of_perm (h : as.Perm as')
    (hapart : ∀ a ∈ as, ∀ b ∈ as, a ≠ b → (f a).filter p = [] ∨ (f b).filter p = []) :
    (as.flatMap f).filter p = (as'.flatMap f).filter p := by
  rw [List.filter_flatMap, List.filter_flatMap]
  induction h with
  | nil => rfl
  | cons a _ ih =>
      have hrest := ih fun b hb c hc =>
        hapart b (List.mem_cons_of_mem a hb) c (List.mem_cons_of_mem a hc)
      rw [List.flatMap_cons, List.flatMap_cons, hrest]
  | swap a b as =>
      have hswap : (f b).filter p ++ (f a).filter p = (f a).filter p ++ (f b).filter p := by
        by_cases hab : b = a
        · rw [hab]
        · rcases hapart b (by simp) a (by simp) hab with hnil | hnil
          · rw [hnil, List.nil_append, List.append_nil]
          · rw [hnil, List.nil_append, List.append_nil]
      rw [List.flatMap_cons, List.flatMap_cons, List.flatMap_cons, List.flatMap_cons,
        ← List.append_assoc, ← List.append_assoc, hswap]
  | trans hfirst _ ih ih' =>
      refine (ih hapart).trans (ih' fun a ha b hb => ?_)
      exact hapart a (hfirst.mem_iff.mpr ha) b (hfirst.mem_iff.mpr hb)

end Lists

namespace Queue

variable {digest : Digest}

/-! ## Merging several queues -/

/-- Merges can be grouped in any way. -/
theorem merge_merge (a b c : Queue digest) :
    (a.merge (b.merge c).2).2 = ((a.merge b).2.merge c).2 := by
  simp only [merge, List.append_assoc, Nat.add_assoc]

/-- Merges queues one after the other. -/
def mergeAll (queue : Queue digest) (others : List (Queue digest)) : Queue digest :=
  others.foldl (fun queue other => (queue.merge other).2) queue

@[simp]
theorem mergeAll_nil (queue : Queue digest) : queue.mergeAll [] = queue :=
  rfl

@[simp]
theorem mergeAll_cons (queue other : Queue digest) (others : List (Queue digest)) :
    queue.mergeAll (other :: others) = (queue.merge other).2.mergeAll others :=
  rfl

theorem config_mergeAll (queue : Queue digest) (others : List (Queue digest)) :
    (queue.mergeAll others).config = queue.config := by
  induction others generalizing queue with
  | nil => rfl
  | cons other others ih =>
      rw [mergeAll_cons, ih]
      rfl

/-- The diagnostics of the other queues are put behind those of this one, in order. -/
theorem entries_mergeAll (queue : Queue digest) (others : List (Queue digest)) :
    (queue.mergeAll others).entries = queue.entries ++ others.flatMap entries := by
  induction others generalizing queue with
  | nil => rw [mergeAll_nil, List.flatMap_nil, List.append_nil]
  | cons other others ih =>
      rw [mergeAll_cons, ih, entries_merge, List.flatMap_cons, List.append_assoc]

/-- The errors of all queues are counted together. -/
theorem errorCount_mergeAll (queue : Queue digest) (others : List (Queue digest)) :
    (queue.mergeAll others).errorCount = queue.errorCount + (others.map errorCount).sum := by
  induction others generalizing queue with
  | nil => rfl
  | cons other others ih =>
      rw [mergeAll_cons, ih, errorCount_merge, List.map_cons, List.sum_cons, Nat.add_assoc]

/-! ## Merging queues in another order -/

/-- The positions of sorted entries do not depend on the order of the entries. -/
theorem map_position_sorted_of_perm {entries entries' : List QueueEntry}
    (h : entries.Perm entries') :
    (sorted entries).map QueueEntry.position = (sorted entries').map QueueEntry.position := by
  have hsort := isStableSort_sorted entries
  have hsort' := isStableSort_sorted entries'
  have hperm : (sorted entries).Perm (sorted entries') :=
    (hsort.perm.trans h).trans hsort'.perm.symm
  refine (hperm.map QueueEntry.position).eq_of_pairwise
    (fun a b _ _ => Position.isLe_antisymm a b) ?_ ?_
  · exact List.pairwise_map.mpr hsort.ascending
  · exact List.pairwise_map.mpr hsort'.ascending

/-- No diagnostic of one queue has the position of a diagnostic of another. -/
def Apart (a b : Queue digest) : Prop :=
  ∀ entry ∈ a.entries, ∀ other ∈ b.entries, entry.position ≠ other.position

instance (a b : Queue digest) : Decidable (a.Apart b) :=
  inferInstanceAs (Decidable (∀ entry ∈ a.entries, ∀ other ∈ b.entries, _))

/-- Of two queues apart from each other, one has nothing at a position. -/
theorem Apart.filter_eq_nil {a b : Queue digest} (h : a.Apart b) (position : Position) :
    (a.entries.filter fun entry => decide (entry.position = position)) = [] ∨
      (b.entries.filter fun entry => decide (entry.position = position)) = [] := by
  by_cases hnil : (a.entries.filter fun entry => decide (entry.position = position)) = []
  · exact Or.inl hnil
  · right
    obtain ⟨entry, hentry⟩ := List.exists_mem_of_ne_nil _ hnil
    obtain ⟨hmem, hposition⟩ := List.mem_filter.mp hentry
    refine List.filter_eq_nil_iff.mpr fun other hother hsame => ?_
    exact h entry hmem other hother
      ((of_decide_eq_true hposition).trans (of_decide_eq_true hsame).symm)

section Reordering

variable {others others' : List (Queue digest)} (h : others.Perm others') (queue : Queue digest)

include h

/-- In another order, merged queues leave the same diagnostics. -/
theorem entries_mergeAll_of_perm :
    (queue.mergeAll others).entries.Perm (queue.mergeAll others').entries := by
  rw [entries_mergeAll, entries_mergeAll]
  exact (h.flatMap_right entries).append_left queue.entries

/-- The number of errors does not depend on the order of merging. -/
theorem errorCount_mergeAll_of_perm :
    (queue.mergeAll others).errorCount = (queue.mergeAll others').errorCount := by
  rw [errorCount_mergeAll, errorCount_mergeAll, (h.map errorCount).sum_nat]

/-- Queues apart from each other are sorted in one order, in whichever order they are
merged: at each position only one of them has diagnostics, behind those that were there
before. -/
theorem sorted_mergeAll_of_perm
    (hapart : ∀ a ∈ others, ∀ b ∈ others, a ≠ b → a.Apart b) :
    sorted (queue.mergeAll others).entries = sorted (queue.mergeAll others').entries := by
  have hsort := isStableSort_sorted (queue.mergeAll others).entries
  have hsort' := isStableSort_sorted (queue.mergeAll others').entries
  refine hsort.unique Position.isLe_refl Position.isLe_antisymm
    ⟨hsort'.perm.trans (entries_mergeAll_of_perm h queue).symm, hsort'.ascending, fun k => ?_⟩
  have hties := filter_flatMap_eq_of_perm h fun a ha b hb hab =>
    (hapart a ha b hb hab).filter_eq_nil k
  rw [hsort'.stable k, entries_mergeAll, entries_mergeAll, List.filter_append,
    List.filter_append, hties]

end Reordering

/-! ## What merging does -/

/-- Merging into a queue filters nothing and does not depend on how and in which order
it is done.  The diagnostics of the other queue are appended and counted, whatever the
two configurations are, and the last errors are forgotten; merges can be grouped in any
way.  Queues merged in another order leave as many errors and the same diagnostics, a
flush puts the same positions in the same order, and it gives up the same diagnostics
when no two different queues hold some at one position. -/
structure MergesFreely (queue : Queue digest) : Prop where
  takesOver (other : Queue digest) : queue.merge other =
    (other.size,
      { config := queue.config
        entries := queue.entries ++ other.entries
        errorCount := queue.errorCount + other.errorCount
        lastSyntaxLine := none
        lastError := none })
  regroup (b c : Queue digest) : (queue.merge (b.merge c).2).2 = ((queue.merge b).2.merge c).2
  errorCount_eq {others others' : List (Queue digest)} (h : others.Perm others') :
    (queue.mergeAll others).errorCount = (queue.mergeAll others').errorCount
  entries_perm {others others' : List (Queue digest)} (h : others.Perm others') :
    (queue.mergeAll others).entries.Perm (queue.mergeAll others').entries
  positions_eq {others others' : List (Queue digest)} (h : others.Perm others') :
    (sorted (queue.mergeAll others).entries).map QueueEntry.position =
      (sorted (queue.mergeAll others').entries).map QueueEntry.position
  flush_eq {others others' : List (Queue digest)} (h : others.Perm others')
    (hapart : ∀ a ∈ others, ∀ b ∈ others, a ≠ b → a.Apart b) :
    (queue.mergeAll others).flush = (queue.mergeAll others').flush

/-- Every queue takes over other queues freely. -/
theorem mergesFreely (queue : Queue digest) : queue.MergesFreely where
  takesOver _ := rfl
  regroup := queue.merge_merge
  errorCount_eq h := errorCount_mergeAll_of_perm h queue
  entries_perm h := entries_mergeAll_of_perm h queue
  positions_eq h := map_position_sorted_of_perm (entries_mergeAll_of_perm h queue)
  flush_eq {others others'} h hapart := by
    rw [flush, flush, sorted_mergeAll_of_perm h queue hapart, config_mergeAll, config_mergeAll]

/-- The queue of a task that reports in the first and in the last line. -/
def outerTask : Queue .exact :=
  (ofConfig .default).addAll [⟨tiedError "first", ⟨1, 3⟩⟩, ⟨tiedError "fourth", ⟨7, 1⟩⟩]

/-- The queue of a task that reports twice at one position between them. -/
def innerTask : Queue .exact :=
  (ofConfig .unlimited).addAll [⟨tiedError "second", ⟨2, 7⟩⟩, ⟨tiedError "third", ⟨2, 7⟩⟩]

/-- It makes no difference which of two tasks ends first. -/
theorem mergesFreely_interleavedTasks :
    (∀ a ∈ [outerTask, innerTask], ∀ b ∈ [outerTask, innerTask], a ≠ b → a.Apart b) ∧
      ((ofConfig .default).mergeAll [outerTask, innerTask]).entries ≠
        ((ofConfig .default).mergeAll [innerTask, outerTask]).entries ∧
      ((ofConfig .default).mergeAll [outerTask, innerTask]).flush =
        ((ofConfig .default).mergeAll [innerTask, outerTask]).flush := by
  have hapart : ∀ a ∈ [outerTask, innerTask], ∀ b ∈ [outerTask, innerTask], a ≠ b → a.Apart b := by
    decide
  exact ⟨hapart, by decide, (mergesFreely _).flush_eq (.swap _ _ _) hapart⟩

-- Diagnostics at one position are flushed in the order in which their queues were merged.
example :
    let left : Queue .exact := (ofConfig .default).addAll [⟨tiedError "left", ⟨2, 7⟩⟩]
    let right : Queue .exact := (ofConfig .default).addAll [⟨tiedError "right", ⟨2, 7⟩⟩]
    ((ofConfig .default).mergeAll [left, right]).flush ≠
      ((ofConfig .default).mergeAll [right, left]).flush := by
  decide

end Queue
end ScriptLowering
