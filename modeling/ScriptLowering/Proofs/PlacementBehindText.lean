import ScriptLowering.Grammar.Spans
import ScriptLowering.Proofs.Placement

/-!
# Laying out behind more text

Layout decides about a space from the text that was already written, and gives
every token the place where it stands in that text.  Neither depends on how the
text goes at its far end: behind more text a tree is laid out as before, and moves
on by the size of that text.

Main definitions:

- `Span.shift`: the span that stands a number of bytes further on.
- `Page.prepend`: a page with more text in front.

Main results:

- Theorem `Tree.place_prepend`: a tree that is placed behind more text moves on by
  the size of that text.
- Theorem `Tree.place_of_atLineStart`: a tree at the start of a line is laid out as
  a text of its own, and moved on.
- Theorem `Tree.mapSpans_upTo_layout`: a tree that is laid out stands before the end
  of its source.
-/

namespace ScriptLowering

/-! ## Moving offsets -/

/-- Maps the two offsets of a span. -/
def Span.mapOffsets (g : UInt32 → UInt32) (span : Span) : Span :=
  ⟨g span.start, g span.stop⟩

/-- The span that stands a number of bytes further on. -/
def Span.shift (bytes : Nat) : Span → Span :=
  mapOffsets fun offset => offset + UInt32.ofNat bytes

/-- The offset that stands a number of bytes further on, and the last offset when there is none. -/
def pushOffset (bytes : Nat) (offset : UInt32) : UInt32 :=
  UInt32.ofNat (min (bytes + offset.toNat) Span.maxOffset)

/-- An offset that is pushed is larger by the number of bytes, up to the last offset. -/
theorem toNat_pushOffset (bytes : Nat) (offset : UInt32) :
    (pushOffset bytes offset).toNat = min (bytes + offset.toNat) Span.maxOffset := by
  have hbound : min (bytes + offset.toNat) Span.maxOffset < UInt32.size := by
    have hmax : Span.maxOffset < UInt32.size := by decide
    omega
  exact UInt32.toNat_ofNat_of_lt' hbound

/-- The end of a text is pushed by the text that is put before it. -/
theorem endOffset_append (before text : String) :
    endOffset (before ++ text) = pushOffset before.utf8ByteSize (endOffset text) := by
  apply UInt32.toNat_inj.mp
  rw [toNat_endOffset, toNat_pushOffset, toNat_endOffset, String.utf8ByteSize_append]
  omega

/-- The smaller and the larger of two offsets that are in order. -/
theorem min_max_of_le {a b : UInt32} (h : a ≤ b) :
    (min a b = a ∧ min b a = a) ∧ max a b = b ∧ max b a = b := by
  have hle := UInt32.le_iff_toNat_le.mp h
  refine ⟨⟨?_, ?_⟩, ?_, ?_⟩ <;> apply UInt32.toNat_inj.mp
  · rw [UInt32.toNat_min]
    omega
  · rw [UInt32.toNat_min]
    omega
  · rw [UInt32.toNat_max]
    omega
  · rw [UInt32.toNat_max]
    omega

/-- Offsets that are mapped in order keep the merges of spans. -/
theorem Span.keepsMerges_mapOffsets {g : UInt32 → UInt32} (hg : ∀ a b, a ≤ b → g a ≤ g b) :
    KeepsMerges (mapOffsets g) := by
  have hmin : ∀ a b : UInt32, g (min a b) = min (g a) (g b) := by
    intro a b
    rcases UInt32.le_total a b with hle | hle
    · rw [(min_max_of_le hle).1.1, (min_max_of_le (hg a b hle)).1.1]
    · rw [(min_max_of_le hle).1.2, (min_max_of_le (hg b a hle)).1.2]
  have hmax : ∀ a b : UInt32, g (max a b) = max (g a) (g b) := by
    intro a b
    rcases UInt32.le_total a b with hle | hle
    · rw [(min_max_of_le hle).2.1, (min_max_of_le (hg a b hle)).2.1]
    · rw [(min_max_of_le hle).2.2, (min_max_of_le (hg b a hle)).2.2]
  intro a b
  exact congrArg₂ Span.mk (hmin a.start b.start) (hmax a.stop b.stop)

/-- Spans that are pushed on are merged as before. -/
theorem keepsMerges_push (bytes : Nat) : Span.KeepsMerges (Span.mapOffsets (pushOffset bytes)) := by
  apply Span.keepsMerges_mapOffsets
  intro a b hle
  rw [UInt32.le_iff_toNat_le] at hle ⊢
  rw [toNat_pushOffset, toNat_pushOffset]
  omega

/-- Spans that are cut off at a limit are merged as before. -/
theorem keepsMerges_upTo (limit : UInt32) : Span.KeepsMerges (Span.mapOffsets (min · limit)) := by
  apply Span.keepsMerges_mapOffsets
  intro a b hle
  rw [UInt32.le_iff_toNat_le] at hle ⊢
  rw [UInt32.toNat_min, UInt32.toNat_min]
  omega

/-- Pushing offsets up to a limit adds to them as long as the limit can be pushed. -/
theorem push_upTo_eq_shift_upTo {bytes : Nat} {limit : UInt32}
    (hlimit : bytes + limit.toNat ≤ Span.maxOffset) :
    Span.mapOffsets (pushOffset bytes) ∘ Span.mapOffsets (min · limit) =
      Span.shift bytes ∘ Span.mapOffsets (min · limit) := by
  have hoffset : ∀ offset : UInt32, pushOffset bytes (min offset limit) =
      min offset limit + UInt32.ofNat bytes := by
    intro offset
    have hmin := UInt32.toNat_min offset limit
    have hmax : Span.maxOffset < UInt32.size := by decide
    have hbytes : (UInt32.ofNat bytes).toNat = bytes := UInt32.toNat_ofNat_of_lt' (by omega)
    apply UInt32.toNat_inj.mp
    rw [toNat_pushOffset, UInt32.toNat_add, hbytes, Nat.mod_eq_of_lt (by
      have hsize : UInt32.size = 2 ^ 32 := rfl
      omega)]
    omega
  funext span
  exact congrArg₂ Span.mk (hoffset span.start) (hoffset span.stop)

/-! ## Placing behind more text -/

namespace Page

/-- The page with more text in front. -/
def prepend (before : String) (page : Page) : Page :=
  ⟨before ++ page.text, page.atLineStart⟩

/-- A page at the start of a line is a blank page behind its text. -/
theorem prepend_blank {page : Page} (h : page.atLineStart = true) :
    blank.prepend page.text = page := by
  rw [prepend, blank, String.append_empty, ← h]

/-- A token that is written behind more text is the same token, further on. -/
theorem write_prepend (before : String) (page : Page) (token : Token) :
    (page.prepend before).write token =
      ((page.write token).1.mapSpan (Span.mapOffsets (pushOffset before.utf8ByteSize)),
        (page.write token).2.prepend before) := by
  simp only [write, prepend, separator, atLineStartAfter, Token.mapSpan, Span.mapOffsets,
    String.append_assoc, endOffset_append]
  rfl

/-- A page that ends with a line break is at the start of a line. -/
def KnowsLineStart (page : Page) : Prop :=
  page.text.toList.getLast? = some '\n' → page.atLineStart = true

/-- A page knows where its line starts after a token was written. -/
theorem KnowsLineStart.write {page : Page} (h : page.KnowsLineStart) (token : Token) :
    (page.write token).2.KnowsLineStart := by
  intro hend
  cases hlast : token.text.toList.getLast? with
  | none =>
      have hempty : token.text = "" := by
        apply String.toList_injective
        exact List.getLast?_eq_none_iff.mp hlast
      have htext : (page.write token).2.text = page.text := by
        simp [Page.write, separator, hempty]
      rw [htext] at hend
      simp only [Page.write, atLineStartAfter, hlast]
      exact h hend
  | some c =>
      simp only [Page.write, String.toList_append, List.getLast?_append, hlast] at hend
      simp only [Page.write, atLineStartAfter, hlast]
      simpa using hend

theorem KnowsLineStart.writeAll {page : Page} (h : page.KnowsLineStart) (tokens : List Token) :
    (page.writeAll tokens).2.KnowsLineStart := by
  induction tokens generalizing page with
  | nil => exact h
  | cons token tokens ih => exact ih (h.write token)

theorem knowsLineStart_blank : blank.KnowsLineStart :=
  fun _ => rfl

end Page

namespace Tree

/-- A tree that is placed behind more text moves on by the size of that text. -/
theorem place_prepend {tree : Tree} (h : tree.NoneChildless) (before : String) (page : Page) :
    tree.place (page.prepend before) =
      ((tree.place page).1.mapSpans (Span.mapOffsets (pushOffset before.utf8ByteSize)),
        (tree.place page).2.prepend before) := by
  have hmerge : Span.KeepsMerges (Span.mapOffsets (pushOffset before.utf8ByteSize)) :=
    keepsMerges_push _
  induction tree using Tree.inductionOnChildren generalizing page with
  | leaf token => rw [place_leaf, place_leaf, Page.write_prepend, mapSpans_leaf]
  | node rule children span ih =>
      have hall : ∀ (trees : List Tree) (page : Page), trees ⊆ children →
          placeAll (page.prepend before) trees =
            ((placeAll page trees).1.map
                (mapSpans (Span.mapOffsets (pushOffset before.utf8ByteSize))),
              (placeAll page trees).2.prepend before) := by
        intro trees
        induction trees with
        | nil =>
            intro page htrees
            rw [placeAll, placeAll, List.map_nil]
        | cons tree trees ihtrees =>
            intro page htrees
            have htree : tree ∈ children := htrees List.mem_cons_self
            rw [placeAll_cons, placeAll_cons, ih tree htree (h.child htree) page,
              ihtrees _ fun other hother => htrees (List.mem_cons_of_mem tree hother),
              List.map_cons]
      have hne : (placeAll page children).1 ≠ [] := by
        have hplaced := h.place page
        rw [place_node] at hplaced
        exact hplaced .refl
      rw [place_node, place_node, hall children page (List.Subset.refl _), ofChildren, ofChildren,
        mapSpans_node, cover_map_mapSpans hmerge (Or.inl hne)]

/-- A tree that is placed at the start of a line is laid out as a text of its own and moves on by
what stands in front of it. -/
theorem place_of_atLineStart {tree : Tree} (h : tree.NoneChildless) {page : Page}
    (hstart : page.atLineStart = true) :
    tree.place page =
      (tree.layout.root.mapSpans (Span.mapOffsets (pushOffset page.text.utf8ByteSize)),
        (tree.place .blank).2.prepend page.text) := by
  have hplace := place_prepend h page.text .blank
  rwa [Page.prepend_blank hstart] at hplace

end Tree

/-! ## Trees at the start of a text -/

/-- Tokens stand before the end of the text that they are written to. -/
theorem Page.le_of_mem_writeAll {page : Page} {tokens : List Token} {token : Token}
    (h : token ∈ (page.writeAll tokens).1) :
    token.span.start ≤ endOffset (page.writeAll tokens).2.text ∧
      token.span.stop ≤ endOffset (page.writeAll tokens).2.text := by
  induction tokens generalizing page with
  | nil => contradiction
  | cons first rest ih =>
      rw [writeAll_cons] at h ⊢
      rcases List.mem_cons.mp h with rfl | h
      · obtain ⟨more, hmore⟩ := (page.write first).2.exists_text_writeAll rest
        have hstop : (page.write first).1.span.stop ≤
            endOffset ((page.write first).2.writeAll rest).2.text := by
          rw [hmore]
          exact endOffset_le_append _ more
        exact ⟨UInt32.le_trans (endOffset_le_append _ first.text) hstop, hstop⟩
      · exact ih h

/-- A map of spans that leaves the tokens of a tree where they are leaves a tree whose nodes cover
their children where it is. -/
theorem Tree.Covered.mapSpans_eq_self {f : Span → Span} (hmerge : Span.KeepsMerges f)
    (hunplaced : f .unplaced = .unplaced) {tree : Tree} (h : tree.Covered)
    (htokens : ∀ token ∈ tree.tokens, f token.span = token.span) : tree.mapSpans f = tree := by
  induction tree using Tree.inductionOnChildren with
  | leaf token => rw [mapSpans_leaf, Token.mapSpan, htokens token (by simp)]
  | node rule children span ih =>
      have hchildren : children.map (mapSpans f) = children := by
        nth_rewrite 2 [← List.map_id children]
        apply List.map_congr_left
        intro child hchild
        refine ih child hchild (h.child hchild) fun token htoken => htokens token ?_
        rw [tokens_node]
        exact List.mem_flatMap_of_mem hchild htoken
      have hspan : span = cover children := h .refl
      rw [mapSpans_node, hchildren, hspan, ← cover_map_mapSpans hmerge (Or.inr hunplaced),
        hchildren]

/-- A tree that is laid out stands before the end of its source. -/
theorem Tree.mapSpans_upTo_layout (tree : Tree) :
    tree.layout.root.mapSpans (Span.mapOffsets (min · (endOffset tree.layout.source))) =
      tree.layout.root := by
  apply tree.covered_layout.mapSpans_eq_self (keepsMerges_upTo _)
  · exact congrArg₂ Span.mk (min_max_of_le UInt32.zero_le).1.1 (min_max_of_le UInt32.zero_le).1.1
  · intro token htoken
    rw [tokens_root_layout] at htoken
    obtain ⟨hstart, hstop⟩ := Page.le_of_mem_writeAll htoken
    rw [source_layout]
    exact congrArg₂ Span.mk (min_max_of_le hstart).1.1 (min_max_of_le hstop).1.1

end ScriptLowering
