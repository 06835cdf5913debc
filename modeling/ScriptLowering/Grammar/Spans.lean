import ScriptLowering.Grammar.Tree

/-!
# Moving a tree to other places

A tree stays the same tree when its spans change.  Mapping a function over all
spans of a tree moves it; mapping every span to one without a position leaves
what does not depend on positions.
-/

namespace ScriptLowering

/-- A map of spans keeps merges when it gives a merged span what it gives the two spans, merged. -/
def Span.KeepsMerges (f : Span → Span) : Prop :=
  ∀ a b : Span, f (a.merge b) = (f a).merge (f b)

/-- Maps the span of a token. -/
def Token.mapSpan (f : Span → Span) (token : Token) : Token :=
  { token with span := f token.span }

@[simp]
theorem Token.kind_mapSpan (f : Span → Span) (token : Token) :
    (token.mapSpan f).kind = token.kind :=
  rfl

@[simp]
theorem Token.text_mapSpan (f : Span → Span) (token : Token) :
    (token.mapSpan f).text = token.text :=
  rfl

@[simp]
theorem Token.span_mapSpan (f : Span → Span) (token : Token) :
    (token.mapSpan f).span = f token.span :=
  rfl

@[simp]
theorem Token.is_mapSpan (f : Span → Span) (token : Token) (kind : TokenKind) (text : String) :
    (token.mapSpan f).is kind text = token.is kind text :=
  rfl

@[simp]
theorem Token.isStructural_mapSpan (f : Span → Span) (token : Token) :
    (token.mapSpan f).isStructural = token.isStructural :=
  rfl

namespace Tree

mutual

/-- Maps the spans of a tree and of everything in it. -/
def mapSpans (f : Span → Span) : Tree → Tree
  | .leaf token => .leaf (token.mapSpan f)
  | .node rule children span => .node rule (mapSpansOfAll f children) (f span)

/-- Maps the spans of every tree of a list. -/
def mapSpansOfAll (f : Span → Span) : List Tree → List Tree
  | [] => []
  | tree :: trees => mapSpans f tree :: mapSpansOfAll f trees

end

/-- A tree without positions. -/
def eraseSpans (tree : Tree) : Tree :=
  tree.mapSpans fun _ => .unplaced

/-- The trees of a list are moved one by one. -/
@[simp]
theorem mapSpansOfAll_eq_map (f : Span → Span) (trees : List Tree) :
    mapSpansOfAll f trees = trees.map (mapSpans f) := by
  induction trees with
  | nil => rfl
  | cons tree trees ih => simp [mapSpansOfAll, ih]

/-- The span of a tree that was moved is the span of the tree, mapped. -/
@[simp]
theorem span_mapSpans (f : Span → Span) (tree : Tree) : (tree.mapSpans f).span = f tree.span := by
  cases tree <;> rfl

/-- A tree keeps its rule when it is moved. -/
@[simp]
theorem rule?_mapSpans (f : Span → Span) (tree : Tree) : (tree.mapSpans f).rule? = tree.rule? := by
  cases tree <;> rfl

/-! ## What is read off a tree that was moved -/

variable (f : Span → Span)

@[simp]
theorem mapSpans_leaf (token : Token) : (leaf token).mapSpans f = leaf (token.mapSpan f) := by
  rw [mapSpans]

/-- A node is moved with all its children. -/
@[simp]
theorem mapSpans_node (rule : Rule) (children : List Tree) (span : Span) :
    (node rule children span).mapSpans f = node rule (children.map (mapSpans f)) (f span) := by
  rw [mapSpans, mapSpansOfAll_eq_map]

/-- A tree is named in the same way after it was moved. -/
@[simp]
theorem label_mapSpans (tree : Tree) : (tree.mapSpans f).label = tree.label := by
  cases tree <;> rfl

@[simp]
theorem children_mapSpans (tree : Tree) :
    (tree.mapSpans f).children = tree.children.map (mapSpans f) := by
  cases tree <;> simp

@[simp]
theorem token?_mapSpans (tree : Tree) :
    (tree.mapSpans f).token? = tree.token?.map (Token.mapSpan f) := by
  cases tree <;> simp [token?]

@[simp]
theorem isNode_mapSpans (tree : Tree) (rule : Rule) :
    (tree.mapSpans f).isNode rule = tree.isNode rule := by
  rw [isNode, rule?_mapSpans, isNode]

@[simp]
theorem isToken_mapSpans (tree : Tree) (kind : TokenKind) (text : String) :
    (tree.mapSpans f).isToken kind text = tree.isToken kind text := by
  cases tree <;> rfl

@[simp]
theorem childNodes_mapSpans (tree : Tree) :
    (tree.mapSpans f).childNodes = tree.childNodes.map (mapSpans f) := by
  simp [childNodes, List.filter_map, Function.comp_def]

@[simp]
theorem childTokens_mapSpans (tree : Tree) :
    (tree.mapSpans f).childTokens = tree.childTokens.map (Token.mapSpan f) := by
  rw [childTokens, children_mapSpans, List.filterMap_map, childTokens, List.map_filterMap]
  exact congrArg (List.filterMap · tree.children) (funext (token?_mapSpans f))

mutual

/-- The tokens of a tree move with it. -/
@[simp]
theorem tokens_mapSpans :
    ∀ tree : Tree, (tree.mapSpans f).tokens = tree.tokens.map (Token.mapSpan f)
  | .leaf token => by simp
  | .node rule children span => by
    rw [mapSpans, tokens, tokens, tokensOfAll_mapSpansOfAll children]

theorem tokensOfAll_mapSpansOfAll :
    ∀ trees : List Tree,
      tokensOfAll (mapSpansOfAll f trees) = (tokensOfAll trees).map (Token.mapSpan f)
  | [] => rfl
  | tree :: trees => by
    rw [mapSpansOfAll, tokensOfAll, tokensOfAll, List.map_append, tokens_mapSpans tree,
      tokensOfAll_mapSpansOfAll trees]

end

/-- The texts of the tokens stay the same. -/
@[simp]
theorem tokenText_mapSpans (tree : Tree) : (tree.mapSpans f).tokenText = tree.tokenText := by
  simp [tokenText, Function.comp_def]

mutual

/-- The first token of a tree moves with it. -/
@[simp]
theorem firstToken?_mapSpans :
    ∀ tree : Tree, (tree.mapSpans f).firstToken? = tree.firstToken?.map (Token.mapSpan f)
  | .leaf token => rfl
  | .node rule children span => by
    rw [mapSpans, firstToken?, firstToken?, firstTokenOfAll?_mapSpansOfAll children]

theorem firstTokenOfAll?_mapSpansOfAll :
    ∀ trees : List Tree,
      firstTokenOfAll? (mapSpansOfAll f trees) = (firstTokenOfAll? trees).map (Token.mapSpan f)
  | [] => rfl
  | tree :: trees => by
    rw [mapSpansOfAll, firstTokenOfAll?, firstTokenOfAll?, firstToken?_mapSpans tree,
      firstTokenOfAll?_mapSpansOfAll trees]
    cases tree.firstToken? <;> rfl

end

variable {f}

/-- What covers some trees moves with them; a map that moves what has no position has to find a
tree there. -/
theorem cover_map_mapSpans (hmerge : Span.KeepsMerges f) {trees : List Tree}
    (hplaced : trees ≠ [] ∨ f .unplaced = .unplaced) :
    cover (trees.map (mapSpans f)) = f (cover trees) := by
  unfold cover
  rw [List.head?_map, List.getLast?_map]
  cases hfirst : trees.head? with
  | none =>
      obtain rfl := List.head?_eq_none_iff.mp hfirst
      exact (hplaced.resolve_left (fun hne => hne rfl)).symm
  | some first =>
      cases hlast : trees.getLast? with
      | none =>
          obtain rfl := List.getLast?_eq_none_iff.mp hlast
          contradiction
      | some last =>
          simp only [Option.map_some, span_mapSpans]
          exact (hmerge first.span last.span).symm

end Tree

end ScriptLowering
