import ScriptLowering.Grammar.Layout
import ScriptLowering.Proofs.Conformance
import ScriptLowering.Proofs.Descent
import ScriptLowering.Text.Bytes

/-!
# Where tokens are placed

Layout places the tokens of a tree in document order and pays no heed to the
nodes between them.  The nodes are put together again from the placed tokens, so
every node of a placed tree covers its children.  As long as the text can be
measured, every token cuts its own text out of it, and no token begins before
the one in front of it has ended.

Main results:

- Theorem `Tree.tokens_place`: the tokens of a placed tree are its tokens,
  written one after the other.
- Theorem `Tree.covered_place`: every node of a placed tree covers its children.
- Theorem `Page.inPlace_writeAll`: tokens written one after the other stand in
  the text, in order.
- Theorem `Tree.inPlace_layout`: the tokens of a tree that is laid out stand in
  its source.
-/

namespace ScriptLowering

/-! ## Offsets into a text -/

/-- The offset at the end of a text is its number of bytes, up to the last offset. -/
theorem toNat_endOffset (text : String) :
    (endOffset text).toNat = min text.utf8ByteSize Span.maxOffset := by
  have hbound : min text.utf8ByteSize Span.maxOffset < 2 ^ 32 := by
    have hmax : Span.maxOffset < 2 ^ 32 := by decide
    omega
  exact UInt32.toNat_ofNat_of_lt' hbound

/-- A longer text ends no earlier. -/
theorem endOffset_le_append (text more : String) : endOffset text ≤ endOffset (text ++ more) := by
  rw [UInt32.le_iff_toNat_le, toNat_endOffset, toNat_endOffset, String.utf8ByteSize_append]
  omega

/-- The ends of a text and of a longer one cut out of the whole what the longer
one has more. -/
theorem slice?_endOffset {source before middle after : String}
    (hsource : source = before ++ middle ++ after)
    (hsize : source.utf8ByteSize ≤ Span.maxOffset) :
    Text.slice? source (endOffset before).toNat (endOffset (before ++ middle)).toNat =
      some middle := by
  have hbytes := congrArg String.utf8ByteSize hsource
  rw [String.utf8ByteSize_append, String.utf8ByteSize_append] at hbytes
  have hstart : (endOffset before).toNat = Text.byteSize before.toList := by
    rw [toNat_endOffset, Text.byteSize_toList]
    omega
  have hstop : (endOffset (before ++ middle)).toNat =
      Text.byteSize before.toList + Text.byteSize middle.toList := by
    rw [toNat_endOffset, Text.byteSize_toList, Text.byteSize_toList, String.utf8ByteSize_append]
    omega
  have hlist : source.toList = before.toList ++ middle.toList ++ after.toList := by
    rw [hsource, String.toList_append, String.toList_append]
  rw [hstart, hstop, Text.slice?_append hlist, String.ofList_toList]

/-! ## Tokens in a text -/

/-- A token stands in a text: its span cuts its own text out. -/
structure Token.StandsIn (source : String) (token : Token) : Prop where
  start_le_stop : token.span.start ≤ token.span.stop
  slice?_eq : Text.slice? source token.span.start.toNat token.span.stop.toNat = some token.text

/-- Tokens stand in a text, none of them before the end of one in front of it. -/
structure InPlace (source : String) (tokens : List Token) : Prop where
  standsIn : ∀ token ∈ tokens, token.StandsIn source
  inOrder : tokens.Pairwise fun first second => first.span.stop ≤ second.span.start

/-- Some of the tokens that stand in a text stand in it. -/
theorem InPlace.sublist {source : String} {tokens tokens' : List Token}
    (h : InPlace source tokens) (hsublist : tokens'.Sublist tokens) : InPlace source tokens' :=
  ⟨fun token htoken => h.standsIn token (hsublist.subset htoken), h.inOrder.sublist hsublist⟩

/-! ## Writing tokens -/

namespace Page

/-- Writes tokens one after the other. -/
def writeAll (page : Page) : List Token → List Token × Page
  | [] => ([], page)
  | token :: tokens =>
    let (token, page) := page.write token
    let (tokens, page) := page.writeAll tokens
    (token :: tokens, page)

@[simp]
theorem writeAll_nil (page : Page) : page.writeAll [] = ([], page) :=
  rfl

theorem writeAll_cons (page : Page) (token : Token) (tokens : List Token) :
    page.writeAll (token :: tokens) =
      ((page.write token).1 :: ((page.write token).2.writeAll tokens).1,
        ((page.write token).2.writeAll tokens).2) :=
  rfl

/-- Tokens are written in two goes as in one. -/
theorem writeAll_append (page : Page) (tokens tokens' : List Token) :
    page.writeAll (tokens ++ tokens') =
      ((page.writeAll tokens).1 ++ ((page.writeAll tokens).2.writeAll tokens').1,
        ((page.writeAll tokens).2.writeAll tokens').2) := by
  induction tokens generalizing page with
  | nil => rfl
  | cons token tokens ih => simp [writeAll_cons, ih]

/-- What was written stays as it is. -/
theorem exists_text_writeAll (page : Page) (tokens : List Token) :
    ∃ more, (page.writeAll tokens).2.text = page.text ++ more := by
  induction tokens generalizing page with
  | nil => exact ⟨"", by simp⟩
  | cons token tokens ih =>
      obtain ⟨more, hmore⟩ := ih (page.write token).2
      refine ⟨page.separator token ++ token.text ++ more, ?_⟩
      rw [writeAll_cons, hmore]
      simp [write, String.append_assoc]

/-- A token that was written stands in every text that goes on from there. -/
theorem standsIn_write {page : Page} {token : Token} {source more : String}
    (hsource : source = (page.write token).2.text ++ more)
    (hsize : source.utf8ByteSize ≤ Span.maxOffset) : (page.write token).1.StandsIn source :=
  ⟨endOffset_le_append (page.text ++ page.separator token) token.text,
    slice?_endOffset hsource hsize⟩

/-- Tokens written one after the other stand in the text, in order, and begin
where the page ended. -/
theorem inPlace_writeAll {page : Page} {tokens : List Token}
    (hsize : (page.writeAll tokens).2.text.utf8ByteSize ≤ Span.maxOffset) :
    InPlace (page.writeAll tokens).2.text (page.writeAll tokens).1 ∧
      ∀ token ∈ (page.writeAll tokens).1, endOffset page.text ≤ token.span.start := by
  induction tokens generalizing page with
  | nil => exact ⟨⟨by simp, .nil⟩, by simp⟩
  | cons token tokens ih =>
      rw [writeAll_cons] at hsize ⊢
      obtain ⟨hrest, hafter⟩ := ih hsize
      obtain ⟨more, hmore⟩ := (page.write token).2.exists_text_writeAll tokens
      have hstands := standsIn_write hmore hsize
      have hbegin : endOffset page.text ≤ (page.write token).1.span.start :=
        endOffset_le_append page.text (page.separator token)
      refine ⟨⟨List.forall_mem_cons.mpr ⟨hstands, hrest.standsIn⟩, .cons hafter hrest.inOrder⟩,
        List.forall_mem_cons.mpr ⟨hbegin, ?_⟩⟩
      intro later hlater
      exact UInt32.le_trans hbegin (UInt32.le_trans hstands.start_le_stop (hafter later hlater))

end Page

/-! ## Placed trees -/

namespace Tree

theorem place_leaf (page : Page) (token : Token) :
    (leaf token).place page = (.leaf (page.write token).1, (page.write token).2) := by
  rw [place]

theorem place_node (page : Page) (rule : Rule) (children : List Tree) (span : Span) :
    (node rule children span).place page =
      (ofChildren rule (placeAll page children).1, (placeAll page children).2) := by
  rw [place]

theorem placeAll_cons (page : Page) (tree : Tree) (trees : List Tree) :
    placeAll page (tree :: trees) =
      ((tree.place page).1 :: (placeAll (tree.place page).2 trees).1,
        (placeAll (tree.place page).2 trees).2) := by
  rw [placeAll]

/-- The tokens of a placed tree are its tokens, written one after the other. -/
theorem tokens_place (tree : Tree) (page : Page) :
    ((tree.place page).1.tokens, (tree.place page).2) = page.writeAll tree.tokens := by
  induction tree using Tree.inductionOnChildren generalizing page with
  | leaf token => simp [place_leaf, Page.writeAll_cons]
  | node rule children span ih =>
      have hall : ((placeAll page children).1.flatMap tokens, (placeAll page children).2) =
          page.writeAll (children.flatMap tokens) := by
        induction children generalizing page with
        | nil => rw [placeAll]; rfl
        | cons child children ihchildren =>
            have hchild := ih child List.mem_cons_self page
            have hrest := ihchildren (fun other hother => ih other (List.mem_cons_of_mem _ hother))
              (child.place page).2
            rw [placeAll_cons, List.flatMap_cons, List.flatMap_cons, Page.writeAll_append, ← hchild,
              ← hrest]
      rw [place_node, tokens_node, ← hall, ofChildren, tokens_node]

/-- Placing trees one after the other writes their tokens one after the other. -/
theorem snd_placeAll (page : Page) (trees : List Tree) :
    (placeAll page trees).2 = (page.writeAll (trees.flatMap tokens)).2 := by
  have hplace := tokens_place (ofChildren .fileInput trees) page
  rw [ofChildren, place_node, tokens_node] at hplace
  exact (Prod.mk.inj hplace).2

/-- Every node of a tree covers its children. -/
def Covered (tree : Tree) : Prop :=
  ∀ ⦃rule : Rule⦄ ⦃children : List Tree⦄ ⦃span : Span⦄,
    (node rule children span).IsPartOf tree → span = cover children

/-- The nodes below a node cover their children when all nodes do. -/
theorem Covered.child {tree child : Tree} (h : tree.Covered) (hchild : child ∈ tree.children) :
    child.Covered := by
  cases tree with
  | leaf token => contradiction
  | node rule children span =>
      intro rule' children' span' hpart
      exact h (.child hchild hpart)

/-- The span of a node is that of its children. -/
theorem Covered.span_eq {tree : Tree} (h : tree.Covered) (hne : tree.children ≠ []) :
    tree.span = cover tree.children := by
  cases tree with
  | leaf token => contradiction
  | node rule children span => exact h .refl

theorem covered_leaf (token : Token) : (leaf token).Covered := by
  intro rule children span hpart
  cases hpart

theorem covered_ofChildren {rule : Rule} {children : List Tree}
    (h : ∀ child ∈ children, child.Covered) : (ofChildren rule children).Covered := by
  intro rule' children' span hpart
  cases hpart with
  | refl => rfl
  | child hchild hpart => exact h _ hchild hpart

/-- Every node of a placed tree covers its children. -/
theorem covered_place (tree : Tree) (page : Page) : (tree.place page).1.Covered := by
  induction tree using Tree.inductionOnChildren generalizing page with
  | leaf token =>
      rw [place_leaf]
      exact covered_leaf _
  | node rule children span ih =>
      rw [place_node]
      apply covered_ofChildren
      induction children generalizing page with
      | nil => simp [placeAll]
      | cons child children ihchildren =>
          rw [placeAll_cons]
          exact List.forall_mem_cons.mpr ⟨ih child List.mem_cons_self page,
            ihchildren (fun other hother => ih other (List.mem_cons_of_mem _ hother)) _⟩

/-- The source of a tree that is laid out is what is written of its tokens. -/
theorem source_layout (tree : Tree) :
    tree.layout.source = (Page.blank.writeAll tree.tokens).2.text :=
  congrArg Page.text (Prod.mk.inj (tree.tokens_place .blank)).2

/-- The tokens of a tree that is laid out are its tokens as they are written. -/
theorem tokens_root_layout (tree : Tree) :
    tree.layout.root.tokens = (Page.blank.writeAll tree.tokens).1 :=
  (Prod.mk.inj (tree.tokens_place .blank)).1

/-- The tokens of a tree that is laid out stand in its source, in order. -/
theorem inPlace_layout {tree : Tree} (hsize : tree.layout.source.utf8ByteSize ≤ Span.maxOffset) :
    InPlace tree.layout.source tree.layout.root.tokens := by
  rw [source_layout] at hsize
  rw [source_layout, tokens_root_layout]
  exact (Page.inPlace_writeAll hsize).1

/-- Every node of a tree that was laid out covers its children. -/
theorem covered_layout (tree : Tree) : tree.layout.root.Covered :=
  tree.covered_place .blank

/-! ### Trees without childless nodes -/

/-- Every node of a tree has children. -/
def NoneChildless (tree : Tree) : Prop :=
  ∀ ⦃rule : Rule⦄ ⦃children : List Tree⦄ ⦃span : Span⦄,
    (node rule children span).IsPartOf tree → children ≠ []

/-- The children of a tree without childless nodes have none in them either. -/
theorem NoneChildless.child {tree child : Tree} (h : tree.NoneChildless)
    (hchild : child ∈ tree.children) : child.NoneChildless := by
  cases tree with
  | leaf token => contradiction
  | node rule children span =>
      intro rule' children' span' hpart
      exact h (.child hchild hpart)

theorem noneChildless_leaf (token : Token) : (leaf token).NoneChildless := by
  intro rule children span hpart
  cases hpart

/-- A node has none without children in it when it has children and they have none. -/
theorem noneChildless_node {rule : Rule} {children : List Tree} {span : Span}
    (hne : children ≠ []) (h : ∀ child ∈ children, child.NoneChildless) :
    (node rule children span).NoneChildless := by
  intro rule' children' span' hpart
  cases hpart with
  | refl => exact hne
  | child hchild hpart => exact h _ hchild hpart

mutual

/-- Checks that every node has children. -/
def noneChildless : Tree → Bool
  | .leaf _ => true
  | .node _ children _ => !children.isEmpty && noneOfAllChildless children

/-- Checks the trees of a list. -/
def noneOfAllChildless : List Tree → Bool
  | [] => true
  | tree :: trees => noneChildless tree && noneOfAllChildless trees

end

theorem noneOfAllChildless_iff {trees : List Tree} :
    noneOfAllChildless trees = true ↔ ∀ tree ∈ trees, tree.noneChildless = true := by
  induction trees with
  | nil => simp [noneOfAllChildless]
  | cons tree trees ih => simp [noneOfAllChildless, ih]

/-- The check says whether every node has children. -/
theorem noneChildless_iff {tree : Tree} : tree.noneChildless = true ↔ tree.NoneChildless := by
  induction tree using Tree.inductionOnChildren with
  | leaf token => exact iff_of_true rfl (noneChildless_leaf token)
  | node rule children span ih =>
      rw [noneChildless, Bool.and_eq_true, noneOfAllChildless_iff]
      constructor
      · rintro ⟨hne, hall⟩
        exact noneChildless_node (by simpa using hne) fun child hchild =>
          (ih child hchild).mp (hall child hchild)
      · intro h
        refine ⟨by simpa using h .refl, ?_⟩
        intro child hchild
        exact (ih child hchild).mpr (h.child hchild)

instance : DecidablePred NoneChildless := fun _ =>
  decidable_of_iff _ noneChildless_iff

/-- Placing a tree leaves no node without children. -/
theorem NoneChildless.place {tree : Tree} (h : tree.NoneChildless) (page : Page) :
    (tree.place page).1.NoneChildless := by
  induction tree using Tree.inductionOnChildren generalizing page with
  | leaf token =>
      rw [place_leaf]
      exact noneChildless_leaf _
  | node rule children span ih =>
      have hall : ∀ (page : Page) (trees : List Tree), trees ⊆ children →
          ((placeAll page trees).1 = [] → trees = []) ∧
            ∀ child ∈ (placeAll page trees).1, child.NoneChildless := by
        intro page trees htrees
        induction trees generalizing page with
        | nil => simp [placeAll]
        | cons tree trees ihtrees =>
            have htree : tree ∈ children := htrees List.mem_cons_self
            rw [placeAll_cons]
            refine ⟨nofun, List.forall_mem_cons.mpr ⟨ih tree htree (h.child htree) page, ?_⟩⟩
            exact (ihtrees _ fun other hother => htrees (List.mem_cons_of_mem tree hother)).2
      have hplaced := hall page children (List.Subset.refl _)
      rw [place_node, ofChildren]
      exact noneChildless_node (fun hnil => h .refl (hplaced.1 hnil)) hplaced.2

end Tree

end ScriptLowering
