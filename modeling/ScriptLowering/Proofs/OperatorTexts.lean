import ScriptLowering.Proofs.FaithfulLayout
import ScriptLowering.Proofs.FileDescent

/-!
# The texts of refused operators

An operator that is refused is a token, or a node that holds the words of a
comparison operator.  A token cuts its own text out of the source.  Words are
written with single spaces between them, and these are the spaces that join them in
the name of the operator, so such a node cuts out its name.

Main results:

- Theorem `Page.text_writeAll_of_isWord`: words that are written to a page are
  joined by single spaces.
- Theorem `Tree.exists_place_of_isPartOf`: the parts of a placed tree are the placed
  parts of the tree.
- Theorem `Tree.slice?_tokenText`: an operator cuts its text out of the source.
- Theorem `lowering_namesOperators`: every lowering names refused operators as they
  are written.
-/

namespace ScriptLowering

/-! ## Words -/

/-- A token is a word when it has text, is no line break and does not end with one. -/
def Token.IsWord (token : Token) : Prop :=
  token.kind ≠ .newline ∧ token.text ≠ "" ∧ token.text.toList.getLast? ≠ some '\n'

instance : DecidablePred Token.IsWord := fun _ => inferInstanceAs (Decidable (_ ∧ _ ∧ _))

namespace Page

variable {page : Page} {token : Token} {tokens : List Token}

/-- A word stands behind a space unless it begins a line. -/
theorem separator_of_isWord (h : token.IsWord) :
    page.separator token = if page.atLineStart then "" else " " := by
  obtain ⟨hkind, htext, -⟩ := h
  unfold separator
  simp [hkind, htext]

/-- Behind a word there is no start of a line. -/
theorem atLineStart_write_of_isWord (h : token.IsWord) :
    (page.write token).2.atLineStart = false := by
  obtain ⟨-, htext, hlast⟩ := h
  change page.atLineStartAfter token = false
  unfold atLineStartAfter
  split
  · rename_i c hc
    rw [hc] at hlast
    simpa using hlast
  · rename_i hnone
    rw [List.getLast?_eq_none_iff, String.toList_eq_nil_iff] at hnone
    exact absurd hnone htext

/-- Words that are written to a page are joined by single spaces. -/
theorem text_writeAll_of_isWord (h : ∀ word ∈ token :: tokens, word.IsWord) :
    (page.writeAll (token :: tokens)).2.text =
      page.text ++ page.separator token ++ " ".intercalate ((token :: tokens).map Token.text) := by
  induction tokens generalizing page token with
  | nil => simp [writeAll_cons, write]
  | cons next tokens ih =>
      obtain ⟨htoken, hrest⟩ := List.forall_mem_cons.mp h
      have hspace : (page.write token).2.separator next = " " := by
        rw [separator_of_isWord (hrest next List.mem_cons_self),
          atLineStart_write_of_isWord htoken, if_neg Bool.false_ne_true]
      have hwritten : (page.write token).2.text =
          page.text ++ page.separator token ++ token.text := rfl
      have hjoined : " ".intercalate ((token :: next :: tokens).map Token.text) =
          token.text ++ " " ++ " ".intercalate ((next :: tokens).map Token.text) :=
        String.intercalate_cons_cons
      rw [writeAll_cons, ih hrest, hspace, hwritten, hjoined]
      simp only [String.append_assoc]

/-- The last of the tokens that are written ends where the page ends. -/
theorem stop_getLast?_writeAll {last : Token} (h : last ∈ (page.writeAll tokens).1.getLast?) :
    last.span.stop = endOffset (page.writeAll tokens).2.text := by
  induction tokens generalizing page with
  | nil => contradiction
  | cons token tokens ih =>
      rw [writeAll_cons] at h ⊢
      cases tokens with
      | nil =>
          obtain rfl : (page.write token).1 = last := by simpa using h
          rfl
      | cons next tokens =>
          refine ih ?_
          rw [writeAll_cons] at h ⊢
          rwa [List.getLast?_cons_cons] at h

/-- The stretch of words that are written to a page cuts them out, joined by single
spaces. -/
theorem slice?_writeAll_of_isWord {source more : String} {span : Span} (hne : tokens ≠ [])
    (hwords : ∀ word ∈ tokens, word.IsWord)
    (hsource : source = (page.writeAll tokens).2.text ++ more)
    (hsize : source.utf8ByteSize ≤ Span.maxOffset) (hspan : Occupy (page.writeAll tokens).1 span) :
    Text.slice? source span.start.toNat span.stop.toNat =
      some (" ".intercalate (tokens.map Token.text)) := by
  obtain ⟨⟨first, hfirst, hstart⟩, last, hlast, hstop⟩ := hspan
  rw [hstart, hstop, stop_getLast?_writeAll hlast]
  cases tokens with
  | nil => contradiction
  | cons token tokens =>
      obtain rfl : (page.write token).1 = first := by
        rw [writeAll_cons] at hfirst
        simpa using hfirst
      have hbegin : (page.write token).1.span.start =
          endOffset (page.text ++ page.separator token) := rfl
      rw [text_writeAll_of_isWord hwords] at hsource ⊢
      rw [hbegin]
      exact slice?_endOffset hsource hsize

end Page

namespace Tree

/-! ## Parts of a placed tree -/

/-- A tree that was placed among others was placed on some page, and what was written
to the page stays as it is. -/
theorem exists_place_of_mem_placeAll {page : Page} {trees : List Tree} {placed : Tree}
    (h : placed ∈ (placeAll page trees).1) :
    ∃ tree ∈ trees, ∃ before : Page, placed = (tree.place before).1 ∧
      ∃ more, (placeAll page trees).2.text = (tree.place before).2.text ++ more := by
  induction trees generalizing page with
  | nil => simp [placeAll] at h
  | cons tree trees ih =>
      rw [placeAll_cons] at h ⊢
      rcases List.mem_cons.mp h with rfl | h
      · obtain ⟨more, hmore⟩ := (tree.place page).2.exists_text_writeAll (trees.flatMap tokens)
        rw [← snd_placeAll] at hmore
        exact ⟨tree, List.mem_cons_self, page, rfl, more, hmore⟩
      · obtain ⟨own, hown, before, hplaced, hmore⟩ := ih h
        exact ⟨own, List.mem_cons_of_mem _ hown, before, hplaced, hmore⟩

/-- The parts of a placed tree are parts of the tree that were placed. -/
theorem exists_place_of_isPartOf {tree part : Tree} {page : Page}
    (h : part.IsPartOf (tree.place page).1) :
    ∃ inner : Tree, inner.IsPartOf tree ∧ ∃ before : Page, part = (inner.place before).1 ∧
      ∃ more, (tree.place page).2.text = (inner.place before).2.text ++ more := by
  induction tree using Tree.inductionOnChildren generalizing page with
  | leaf token =>
      rw [place_leaf] at h
      cases h
      exact ⟨.leaf token, .refl, page, by rw [place_leaf], "", by simp⟩
  | node rule children span ih =>
      rw [place_node] at h
      cases h with
      | refl => exact ⟨.node rule children span, .refl, page, by rw [place_node], "", by simp⟩
      | child hchild hpart =>
          obtain ⟨own, hown, before, rfl, more, hmore⟩ := exists_place_of_mem_placeAll hchild
          obtain ⟨inner, hinner, earlier, hplaced, rest, hrest⟩ := ih own hown hpart
          refine ⟨inner, .child hown hinner, earlier, hplaced, rest ++ more, ?_⟩
          rw [place_node, hmore, hrest, String.append_assoc]

/-! ## Operators of several words -/

/-- A tree is a word when it is a token that is one. -/
def IsWord : Tree → Prop
  | .leaf token => token.IsWord
  | .node _ _ _ => False

instance : DecidablePred IsWord
  | .leaf token => inferInstanceAs (Decidable token.IsWord)
  | .node _ _ _ => inferInstanceAs (Decidable False)

/-- Every comparison operator of a tree that is a node holds words, at least one, and
nothing else. -/
def HoldsOperatorWords (tree : Tree) : Prop :=
  ∀ part : Tree, part.IsPartOf tree → part.rule? = some .compOp →
    part.children ≠ [] ∧ ∀ child ∈ part.children, child.IsWord

instance : DecidablePred HoldsOperatorWords := fun _ =>
  inferInstanceAs (Decidable (∀ part : Tree, part.IsPartOf _ → _))

/-- A node that holds words has no childless node in it, and its tokens are words. -/
theorem noneChildless_of_isWord {tree : Tree} (hne : tree.children ≠ [])
    (hwords : ∀ child ∈ tree.children, child.IsWord) :
    tree.NoneChildless ∧ tree.tokens ≠ [] ∧ ∀ word ∈ tree.tokens, word.IsWord := by
  have hleaf : ∀ child ∈ tree.children, ∃ token, child = leaf token ∧ token.IsWord := by
    intro child hchild
    have hword := hwords child hchild
    cases child with
    | leaf token => exact ⟨token, rfl, hword⟩
    | node rule children span => exact hword.elim
  cases tree with
  | leaf token => contradiction
  | node rule children span =>
      rw [children_node] at hne hleaf
      rw [tokens_node]
      refine ⟨noneChildless_node hne ?_, ?_, ?_⟩
      · intro child hchild
        obtain ⟨token, rfl, -⟩ := hleaf child hchild
        exact noneChildless_leaf token
      · obtain ⟨token, hfirst, -⟩ := hleaf _ (List.head_mem hne)
        intro hnil
        have hnone := List.flatMap_eq_nil_iff.mp hnil _ (List.head_mem hne)
        rw [hfirst, tokens_leaf] at hnone
        contradiction
      · intro word hword
        obtain ⟨child, hchild, hmem⟩ := List.mem_flatMap.mp hword
        obtain ⟨token, rfl, htoken⟩ := hleaf child hchild
        rw [tokens_leaf] at hmem
        rwa [List.mem_singleton.mp hmem]

@[simp]
theorem rule?_place (tree : Tree) (page : Page) : (tree.place page).1.rule? = tree.rule? := by
  cases tree with
  | leaf token => rw [place_leaf]; rfl
  | node rule children span => rw [place_node]; rfl

/-- A tree keeps the texts of its tokens when it is placed. -/
@[simp]
theorem tokenText_place (tree : Tree) (page : Page) :
    (tree.place page).1.tokenText = tree.tokenText := by
  have herased := congrArg tokenText (tree.eraseSpans_place page)
  rwa [eraseSpans, eraseSpans, tokenText_mapSpans, tokenText_mapSpans] at herased

/-- An operator of a tree that is laid out, a token or a node that holds words, cuts its
text out of the source. -/
theorem slice?_tokenText {tree part : Tree} (hwords : tree.HoldsOperatorWords)
    (hsize : tree.layout.source.utf8ByteSize ≤ Span.maxOffset)
    (hpart : part.IsPartOf tree.layout.root)
    (hrule : part.rule? = none ∨ part.rule? = some .compOp) :
    Text.slice? tree.layout.source part.span.start.toNat part.span.stop.toNat =
      some part.tokenText := by
  have hplace := (inPlace_layout hsize).sublist hpart.tokens_sublist
  rcases hrule with hrule | hrule
  · cases part with
    | leaf token =>
        have hstands := hplace.standsIn token (by simp)
        rw [span_leaf, hstands.slice?_eq]
        simp [tokenText]
    | node rule children span => contradiction
  · obtain ⟨inner, hinner, before, rfl, more, hmore⟩ := exists_place_of_isPartOf hpart
    rw [rule?_place] at hrule
    obtain ⟨hne, hchildren⟩ := hwords inner hinner hrule
    obtain ⟨hnone, htokens, hall⟩ := noneChildless_of_isWord hne hchildren
    obtain ⟨hwritten, hpage⟩ := Prod.mk.inj (inner.tokens_place before)
    have hstands := stands_of_noneChildless (hnone.place before) (covered_place _ before) hplace
    rw [Stands, hwritten] at hstands
    rw [hpage] at hmore
    rw [tokenText_place]
    exact Page.slice?_writeAll_of_isWord htokens hall hmore hsize hstands

end Tree

/-! ## Refused operators -/

/-- A lowering names the operators that it refuses as they are written in the source of
a layout. -/
def NamesOperators {α : Type} (layout : Layout) (lower : Tree → Lowered α) : Prop :=
  ∀ symbol span, lower layout.root = refuse (.operator symbol) span →
    Text.slice? layout.source span.start.toNat span.stop.toNat = some symbol

/-- A lowering whose errors point into the tree names operators as they are written. -/
theorem namesOperators_of_pointsInto {α : Type} {tree : Tree} {lower : Tree → Lowered α}
    (hpoints : ∀ root, PointsInto root (lower root)) (hwords : tree.HoldsOperatorWords)
    (hsize : tree.layout.source.utf8ByteSize ≤ Span.maxOffset) :
    NamesOperators tree.layout lower := by
  intro symbol span hrefused
  obtain ⟨part, hpart, hspan, hoperator⟩ := hpoints _ _ hrefused
  obtain ⟨hrule, rfl⟩ := hoperator symbol rfl
  obtain rfl : span = part.span := hspan
  exact Tree.slice?_tokenText hwords hsize hpart hrule

/-- Every lowering names the operators that it refuses as they are written where it
points: in chains, in front of an operand, as a power, and in an assignment. -/
theorem lowering_namesOperators {tree : Tree} (hwords : tree.HoldsOperatorWords)
    (hsize : tree.layout.source.utf8ByteSize ≤ Span.maxOffset) :
    (NamesOperators tree.layout lowerExpression ∧ NamesOperators tree.layout lowerTest ∧
      NamesOperators tree.layout lowerTestlist) ∧
    NamesOperators tree.layout lowerSimpleStmt ∧
    NamesOperators tree.layout lowerFileInput ∧ NamesOperators tree.layout lowerSingleInput ∧
      NamesOperators tree.layout lowerEvalInput :=
  have hnames : ∀ {α : Type} {lower : Tree → Lowered α},
      (∀ root, PointsInto root (lower root)) → NamesOperators tree.layout lower :=
    fun hpoints => namesOperators_of_pointsInto hpoints hwords hsize
  ⟨⟨hnames lowerExpression_pointsInto, hnames (lowerAs_pointsInto .test),
    hnames (lowerAs_pointsInto .testlist)⟩, hnames lowerSimpleStmt_pointsInto,
    hnames lowerFileInput_pointsInto, hnames lowerSingleInput_pointsInto,
    hnames lowerEvalInput_pointsInto⟩

/-- A file whose second line compares a name with an accented letter by an operator of two
words. -/
def negatedMembership : Tree :=
  .file
    [ .statement (.identifier "a"),
      .statement (.chain .comparison (.identifier "é") [("not in", .identifier "b")])]

/-- The operator begins five bytes into the source, and its two words are cut out with the
space between them. -/
theorem lowering_namesOperators_negatedMembership :
    negatedMembership.HoldsOperatorWords ∧
      negatedMembership.layout.source = "a\né not in b\n" ∧
      lowerFileInput negatedMembership.layout.root = refuse (.operator "not in") ⟨5, 11⟩ ∧
      Text.slice? negatedMembership.layout.source 5 11 = some "not in" := by
  have hwords : negatedMembership.HoldsOperatorWords := by decide +kernel
  have hsource : negatedMembership.layout.source = "a\né not in b\n" := by decide +kernel
  have hsize : negatedMembership.layout.source.utf8ByteSize ≤ Span.maxOffset := by
    rw [hsource]
    decide
  have hrefused : lowerFileInput negatedMembership.layout.root =
      refuse (.operator "not in") ⟨5, 11⟩ := by decide +kernel
  obtain ⟨-, -, hfile, -, -⟩ := lowering_namesOperators hwords hsize
  have hslice := hfile _ _ hrefused
  have hstart : (5 : UInt32).toNat = 5 := rfl
  have hstop : (11 : UInt32).toNat = 11 := rfl
  rw [hstart, hstop] at hslice
  exact ⟨hwords, hsource, hrefused, hslice⟩

end ScriptLowering
