import ScriptLowering.Proofs.OperatorTexts

/-!
# Walks along the tokens of a tree

Three walks go along the tokens of a tree: the search for the leftmost token stops at
the first one it comes to, the text of a tree joins the texts of all of them, and layout
writes them to a page.  Nodes without tokens are nothing to any of the three, wherever
they stand and however deep.

Main results:

- Theorem `Tree.firstToken?_eq_head?`: the search finds the first of the tokens.
- Theorem `Tree.source_layout_of_isWord`: words are laid out as they are joined.
- Theorem `tokenWalks_agree`: the three walks describe one sequence of tokens.
-/

namespace ScriptLowering
namespace Tree

/-! ## The leftmost token -/

mutual

/-- The leftmost token is the first of all tokens. -/
theorem firstToken?_eq_head? : ∀ tree : Tree, tree.firstToken? = tree.tokens.head?
  | .leaf token => by rw [firstToken?, tokens_leaf, List.head?_cons]
  | .node rule children span => by
    rw [firstToken?, tokens_node, firstTokenOfAll?_eq_head? children]

/-- A tree without tokens is passed over, and one with a token ends the search. -/
theorem firstTokenOfAll?_eq_head? :
    ∀ trees : List Tree, firstTokenOfAll? trees = (trees.flatMap tokens).head?
  | [] => by rw [firstTokenOfAll?, List.flatMap_nil, List.head?_nil]
  | tree :: trees => by
    rw [firstTokenOfAll?, firstToken?_eq_head? tree, firstTokenOfAll?_eq_head? trees,
      List.flatMap_cons, List.head?_append]
    cases tree.tokens.head? <;> rfl

end

/-- There is no leftmost token exactly when there are no tokens at all. -/
theorem firstToken?_eq_none_iff {tree : Tree} : tree.firstToken? = none ↔ tree.tokens = [] := by
  rw [firstToken?_eq_head?, List.head?_eq_none_iff]

/-! ## Texts of words -/

/-- A tree of words is laid out as its token text: the page begins with a line, so no space
stands in front of the first word, and behind a word there is always one. -/
theorem source_layout_of_isWord {tree : Tree} (h : ∀ token ∈ tree.tokens, token.IsWord) :
    tree.layout.source = tree.tokenText := by
  rw [source_layout, tokenText]
  cases htokens : tree.tokens with
  | nil => rfl
  | cons token tokens =>
      rw [htokens] at h
      have hstart : Page.blank.separator token = "" := by
        rw [Page.separator_of_isWord (h token List.mem_cons_self)]
        rfl
      rw [Page.text_writeAll_of_isWord h, hstart]
      simp [Page.blank]

end Tree

/-! ## One sequence -/

/-- The walks along the tokens of a tree agree, whatever nodes stand between the tokens: the
search finds the first of them, and nothing only when there are none, and what layout writes of
words is their texts joined by single spaces. -/
theorem tokenWalks_agree (tree : Tree) :
    tree.firstToken? = tree.tokens.head? ∧ (tree.firstToken? = none ↔ tree.tokens = []) ∧
      ((∀ token ∈ tree.tokens, token.IsWord) → tree.layout.source = tree.tokenText) :=
  ⟨tree.firstToken?_eq_head?, Tree.firstToken?_eq_none_iff, Tree.source_layout_of_isWord⟩

/-- A comparison by an operator of two words, with nodes that have no children before it, between
its words and behind it. -/
def scatteredComparison : Tree :=
  .ofChildren .comparison
    [ .ofChildren .atom [], .ofChildren .term [.ofChildren .factor [], .leaf (.name "é")],
      .ofChildren .compOp
        [.leaf (.keyword "not"), .ofChildren .trailer [], .leaf (.keyword "in")],
      .ofChildren .expr [.leaf (.name "b")], .ofChildren .atom []]

/-- The childless nodes hide nothing: the first token, the source and the texts of the tokens
are those of the tokens in order. -/
theorem tokenWalks_agree_scatteredComparison :
    (∀ token ∈ scatteredComparison.tokens, token.IsWord) ∧
      scatteredComparison.firstToken? = some (.name "é") ∧
      scatteredComparison.layout.source = "é not in b" ∧
      scatteredComparison.tokenText = "é not in b" := by
  have hwords : ∀ token ∈ scatteredComparison.tokens, token.IsWord := by decide
  obtain ⟨hfirst, -, htext⟩ := tokenWalks_agree scatteredComparison
  have hsource : scatteredComparison.layout.source = "é not in b" := by decide +kernel
  exact ⟨hwords, hfirst.trans (by decide), hsource, (htext hwords).symm.trans hsource⟩

end ScriptLowering
