import ScriptLowering.Grammar.Spans
import ScriptLowering.Proofs.RejectionPositions

/-!
# Faithful layout

A tree that is laid out keeps everything but its spans, and its source holds
nothing but the texts of its tokens with single spaces between some of them.
Writing pays no heed to the spans that a tree had before, so a tree that was
laid out is laid out the same way again.

Main results:

- Theorem `Page.filledFrom_writeAll`: tokens that are written fill the text behind
  the page.
- Theorem `FilledFrom.spaced`: a text that is filled by tokens is made of their
  texts and of gaps.
- Theorem `Tree.eraseSpans_place`, `Tree.place_mapSpans`: placing changes spans only,
  and does not depend on them.
- Theorem `Tree.layout_faithful`: the layout of a tree is faithful to the tree.
-/

namespace ScriptLowering

/-! ## Texts that tokens fill -/

/-- Between two tokens there is nothing, or a single space. -/
def IsGap (text : String) : Prop :=
  text = "" ∨ text = " "

instance : DecidablePred IsGap := fun _ => inferInstanceAs (Decidable (_ ∨ _))

/-- Tokens fill the source from an offset on: each cuts its own text out of it, and
there is only a gap in front of each of them and behind the last. -/
inductive FilledFrom (source : String) : UInt32 → List Token → Prop
  | last {offset : UInt32} {gap : String} (hgap : IsGap gap)
      (hslice : Text.slice? source offset.toNat source.utf8ByteSize = some gap) :
      FilledFrom source offset []
  | token {offset : UInt32} {gap : String} {token : Token} {tokens : List Token} (hgap : IsGap gap)
      (hslice : Text.slice? source offset.toNat token.span.start.toNat = some gap)
      (hstands : token.StandsIn source) (hrest : FilledFrom source token.span.stop tokens) :
      FilledFrom source offset (token :: tokens)

/-- A text is made of the texts of tokens, with gaps in front of and behind them. -/
inductive Spaced : List Token → String → Prop
  | last {gap : String} (hgap : IsGap gap) : Spaced [] gap
  | token {gap rest : String} {token : Token} {tokens : List Token} (hgap : IsGap gap)
      (hrest : Spaced tokens rest) : Spaced (token :: tokens) (gap ++ token.text ++ rest)

/-- What tokens fill is made of their texts and of gaps. -/
theorem FilledFrom.spaced {source : String} {offset : UInt32} {tokens : List Token}
    (h : FilledFrom source offset tokens) :
    ∃ rest, Text.slice? source offset.toNat source.utf8ByteSize = some rest ∧
      Spaced tokens rest := by
  induction h with
  | last hgap hslice => exact ⟨_, hslice, .last hgap⟩
  | token hgap hslice hstands _ ih =>
      obtain ⟨rest, hrest, hspaced⟩ := ih
      have hfront := Text.slice?_trans hslice hstands.slice?_eq
      exact ⟨_, Text.slice?_trans hfront hrest, .token hgap hspaced⟩

/-- A source that tokens fill from its beginning on is made of their texts and of
gaps. -/
theorem FilledFrom.spaced_source {source : String} {tokens : List Token}
    (h : FilledFrom source 0 tokens) : Spaced tokens source := by
  obtain ⟨rest, hrest, hspaced⟩ := h.spaced
  have hwhole : Text.slice? source 0 source.utf8ByteSize = some source :=
    Text.slice?_eq_some_iff.mpr ⟨[], [], by simp, rfl, by simp [Text.byteSize_toList]⟩
  obtain rfl : source = rest := Option.some.inj (hwhole.symm.trans hrest)
  exact hspaced

/-- Nothing but gaps separates a page from what is written to it. -/
theorem Page.isGap_separator (page : Page) (token : Token) : IsGap (page.separator token) := by
  unfold separator
  split
  · exact Or.inl rfl
  · exact Or.inr rfl

/-- Tokens that are written to a page fill the text behind it. -/
theorem Page.filledFrom_writeAll {page : Page} {tokens : List Token}
    (hsize : (page.writeAll tokens).2.text.utf8ByteSize ≤ Span.maxOffset) :
    FilledFrom (page.writeAll tokens).2.text (endOffset page.text) (page.writeAll tokens).1 := by
  induction tokens generalizing page with
  | nil =>
      rw [writeAll_nil] at hsize ⊢
      refine .last (Or.inl rfl) (Text.slice?_eq_some_iff.mpr ⟨page.text.toList, [], ?_, ?_, ?_⟩)
      · simp
      · rw [toNat_endOffset, Text.byteSize_toList, Nat.min_eq_left hsize]
      · simp [Text.byteSize_toList]
  | cons token tokens ih =>
      rw [writeAll_cons] at hsize ⊢
      obtain ⟨more, hmore⟩ := (page.write token).2.exists_text_writeAll tokens
      have hgap : ((page.write token).2.writeAll tokens).2.text =
          page.text ++ page.separator token ++ (token.text ++ more) := by
        rw [hmore, write, String.append_assoc]
      exact .token (page.isGap_separator token) (slice?_endOffset hgap hsize)
        (standsIn_write hmore hsize) (ih hsize)

/-! ## Placing and spans -/

namespace Tree

/-- Placing a tree changes nothing but spans. -/
theorem eraseSpans_place (tree : Tree) (page : Page) :
    (tree.place page).1.eraseSpans = tree.eraseSpans := by
  induction tree using Tree.inductionOnChildren generalizing page with
  | leaf token =>
      rw [place_leaf]
      rfl
  | node rule children span ih =>
      have hall : (placeAll page children).1.map eraseSpans = children.map eraseSpans := by
        induction children generalizing page with
        | nil => rfl
        | cons child children ihchildren =>
            obtain ⟨hchild, hchildren⟩ := List.forall_mem_cons.mp ih
            rw [placeAll_cons, List.map_cons, List.map_cons, hchild, ihchildren hchildren]
      rw [place_node, ofChildren, eraseSpans, eraseSpans, mapSpans_node, mapSpans_node]
      exact congrArg (node rule · .unplaced) hall

/-- Where a tree is placed does not depend on the spans that it has. -/
theorem place_mapSpans (f : Span → Span) (tree : Tree) (page : Page) :
    (tree.mapSpans f).place page = tree.place page := by
  induction tree using Tree.inductionOnChildren generalizing page with
  | leaf token =>
      rw [mapSpans_leaf, place_leaf, place_leaf]
      rfl
  | node rule children span ih =>
      have hall : placeAll page (children.map (mapSpans f)) = placeAll page children := by
        induction children generalizing page with
        | nil => rfl
        | cons child children ihchildren =>
            obtain ⟨hchild, hchildren⟩ := List.forall_mem_cons.mp ih
            rw [List.map_cons, placeAll_cons, placeAll_cons, hchild, ihchildren hchildren]
      rw [mapSpans_node, place_node, place_node, hall]

/-- Trees that differ in their spans only have one layout. -/
theorem layout_eq_of_eraseSpans_eq {tree tree' : Tree} (h : tree.eraseSpans = tree'.eraseSpans) :
    tree.layout = tree'.layout := by
  have hplace : tree.place .blank = tree'.place .blank := by
    rw [← place_mapSpans (fun _ => .unplaced) tree, ← place_mapSpans (fun _ => .unplaced) tree']
    exact congrArg (place .blank) h
  rw [layout, layout, hplace]

/-- The tokens of a tree that is laid out fill its source. -/
theorem filledFrom_layout {tree : Tree} (hsize : tree.layout.source.utf8ByteSize ≤ Span.maxOffset) :
    FilledFrom tree.layout.source 0 tree.layout.root.tokens := by
  rw [source_layout] at hsize
  rw [source_layout, tokens_root_layout]
  exact Page.filledFrom_writeAll hsize

end Tree

/-! ## Spans of nodes -/

/-- The stretch of some tokens in order contains the stretch of any part of them. -/
theorem Occupy.contains {source : String} {tokens tokens' : List Token} {outer inner : Span}
    (houter : Occupy tokens outer) (hinner : Occupy tokens' inner) (hplace : InPlace source tokens)
    (hsublist : tokens'.Sublist tokens) :
    outer.start ≤ inner.start ∧ inner.stop ≤ outer.stop := by
  obtain ⟨⟨first, hfirst, hstart⟩, last, hlast, hstop⟩ := houter
  obtain ⟨⟨first', hfirst', hstart'⟩, last', hlast', hstop'⟩ := hinner
  rw [hstart, hstop, hstart', hstop']
  constructor
  · obtain ⟨rest, rfl⟩ : ∃ rest, tokens = first :: rest := List.head?_eq_some_iff.mp hfirst
    rcases List.mem_cons.mp (hsublist.subset (List.mem_of_mem_head? hfirst')) with rfl | hrest
    · exact UInt32.le_refl _
    · have hself := (hplace.standsIn first List.mem_cons_self).start_le_stop
      exact UInt32.le_trans hself ((List.pairwise_cons.mp hplace.inOrder).1 first' hrest)
  · obtain ⟨front, rfl⟩ : ∃ front, tokens = front ++ [last] := List.getLast?_eq_some_iff.mp hlast
    have hmem : last ∈ [last] := List.mem_singleton_self last
    rcases List.mem_append.mp (hsublist.subset (List.mem_of_getLast? hlast')) with hfront | hself
    · have hbefore : last'.span.stop ≤ last.span.start :=
        (List.pairwise_append.mp hplace.inOrder).2.2 last' hfront last hmem
      have hstands := hplace.standsIn last (List.mem_append_right front hmem)
      exact UInt32.le_trans hbefore hstands.start_le_stop
    · rw [List.mem_singleton.mp hself]
      exact UInt32.le_refl _

/-! ## Layouts of a tree -/

/-- A layout is faithful to a tree: its root is the tree with other spans, its source
is made of the texts of the tokens and of gaps, and it is its own layout.  Unless
a node of the tree has no children, every node stands where its tokens stand and
contains everything below it. -/
structure Layout.FaithfulTo (layout : Layout) (tree : Tree) : Prop where
  eraseSpans_eq : layout.root.eraseSpans = tree.eraseSpans
  inPlace : InPlace layout.source layout.root.tokens
  filled : FilledFrom layout.source 0 layout.root.tokens
  spaced : Spaced layout.root.tokens layout.source
  layout_eq : layout.root.layout = layout
  stands (hchildren : tree.NoneChildless) {part : Tree} (hpart : part.IsPartOf layout.root) :
    part.Stands
  contains (hchildren : tree.NoneChildless) {part inner : Tree}
    (hpart : part.IsPartOf layout.root) (hinner : inner.IsPartOf part) :
    part.span.start ≤ inner.span.start ∧ inner.span.stop ≤ part.span.stop

/-- The layout of a tree is faithful to the tree as long as its source can be
measured. -/
theorem Tree.layout_faithful {tree : Tree}
    (hsize : tree.layout.source.utf8ByteSize ≤ Span.maxOffset) : tree.layout.FaithfulTo tree where
  eraseSpans_eq := tree.eraseSpans_place .blank
  inPlace := inPlace_layout hsize
  filled := filledFrom_layout hsize
  spaced := (filledFrom_layout hsize).spaced_source
  layout_eq := layout_eq_of_eraseSpans_eq (tree.eraseSpans_place .blank)
  stands hchildren _ hpart := stands_of_isPartOf hchildren hsize hpart
  contains hchildren _ _ hpart hinner :=
    (stands_of_isPartOf hchildren hsize hpart).contains
      (stands_of_isPartOf hchildren hsize (hinner.trans hpart))
      ((inPlace_layout hsize).sublist hpart.tokens_sublist) hinner.tokens_sublist

/-- A file with an accented letter, a line that is blank, and an end without text. -/
def accentedFile : Tree :=
  .file
    [ .statement (.chain .arithExpr (.stringLiteral "\"é\"") [("+", .numeral "1")]),
      .leaf .newline,
      .statement (.identifier "a")]

/-- There is a space on both sides of the sum's operator only. -/
theorem layout_faithful_accentedFile :
    accentedFile.NoneChildless ∧ accentedFile.layout.source = "\"é\" + 1\n\na\n" ∧
      accentedFile.layout.FaithfulTo accentedFile :=
  ⟨by decide, by decide, Tree.layout_faithful (by decide)⟩

end ScriptLowering
