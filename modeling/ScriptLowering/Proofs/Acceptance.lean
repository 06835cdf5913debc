import ScriptLowering.Grammar.ExpressionForms
import ScriptLowering.Proofs.Conformance
import ScriptLowering.Proofs.Descent

/-!
# Acceptance of expressions

Lowering stops at the first construct outside the subset, at whatever level it
stands.  On the trees of the grammar this amounts to one condition on all nodes
at once: lowering succeeds when every part of the tree is admitted, and names a
construct when some part is not.  The only syntax error that such a tree can
give is a number that the source language does not have.

Main results:

- Theorem `Settles.bind`: results that settle two conditions in sequence settle
  both of them.
- Theorem `Tree.Conforms.settles`: on a tree of the grammar, lowering settles
  whether the tree is in the subset.
- Theorem `Tree.Conforms.accepted_iff`: a tree of the grammar is accepted exactly
  when all its parts are admitted, and is a syntax error only for a malformed
  number.
-/

namespace ScriptLowering

/-! ## Results that settle a condition -/

/-- A failure is about one of the tokens, a number that is malformed. -/
def ParseFailure.Blames (failure : ParseFailure) (tokens : List Token) : Prop :=
  ∃ token ∈ tokens, token.kind = .number ∧ ¬ IntegerLiteral.IsNumeral token.text ∧
    failure.fault = .malformedInteger token.text

/-- A result settles a condition: it is a value when the condition holds, and an
error when it does not.  A syntax error is about one of the tokens. -/
def Settles {α : Type} (condition : Prop) (tokens : List Token) : Lowered α → Prop
  | .ok _ => condition
  | .error (.unsupported _) => ¬ condition
  | .error (.parse failure) => ¬ condition ∧ failure.Blames tokens

namespace Settles

variable {α β : Type} {condition condition' : Prop} {tokens tokens' : List Token}

theorem ok (h : condition) (a : α) : Settles condition tokens (.ok a) :=
  h

theorem refuse (h : ¬ condition) (construct : Construct) (span : Span) :
    Settles condition tokens (refuse construct span : Lowered α) :=
  h

/-- A refusal settles a condition that does not hold. -/
theorem of_eq_refuse {result : Lowered α} {construct : Construct} {span : Span}
    (h : result = ScriptLowering.refuse construct span) (hout : ¬ condition) :
    Settles condition tokens result := by
  rw [h]
  exact hout

/-- An exit at a construct settles a condition that does not hold. -/
theorem of_exit {rule : Rule} {children : List Tree} {span : Span} {part : Tree}
    {construct : Construct}
    (h : Exit rule (.node rule children span) children part (.refusal construct))
    (hout : ¬ condition) :
    Settles condition tokens (lowerExpression (.node rule children span)) :=
  .of_eq_refuse h.lowerExpression_eq_error hout

/-- An equivalent condition is settled as well, and further tokens may be there. -/
theorem congr {result : Lowered α} (h : Settles condition tokens result)
    (hcondition : condition' ↔ condition) (htokens : tokens ⊆ tokens') :
    Settles condition' tokens' result := by
  match result with
  | .ok _ => exact hcondition.mpr h
  | .error (.unsupported _) => exact fun hholds => h (hcondition.mp hholds)
  | .error (.parse _) =>
      obtain ⟨hfails, token, htoken, hblame⟩ := h
      exact ⟨fun hholds => hfails (hcondition.mp hholds), token, htokens htoken, hblame⟩

/-- Two conditions that are settled one after the other are both settled. -/
theorem bind {first : Lowered α} {next : α → Lowered β} (h : Settles condition tokens first)
    (hnext : ∀ a, Settles condition' tokens' (next a)) :
    Settles (condition ∧ condition') (tokens ++ tokens') (first >>= next) := by
  match first with
  | .ok a =>
      have hboth : condition ∧ condition' ↔ condition' := and_iff_right h
      exact (hnext a).congr hboth (List.subset_append_right _ _)
  | .error (.unsupported _) => exact fun hboth => h hboth.1
  | .error (.parse _) =>
      obtain ⟨hfails, token, htoken, hblame⟩ := h
      exact ⟨fun hboth => hfails hboth.1, token, List.mem_append_left _ htoken, hblame⟩

/-- A value that is only wrapped settles nothing more. -/
theorem map {first : Lowered α} (h : Settles condition tokens first) (wrap : α → β) :
    Settles condition tokens (first >>= fun a => .ok (wrap a)) := by
  match first with
  | .ok _ => exact h
  | .error (.unsupported _) => exact h
  | .error (.parse _) => exact h

/-- A result that settles a condition is a value exactly when the condition holds. -/
theorem exists_ok_iff {result : Lowered α} (h : Settles condition tokens result) :
    (∃ a, result = .ok a) ↔ condition := by
  match result with
  | .ok a => exact ⟨fun _ => h, fun _ => ⟨a, rfl⟩⟩
  | .error (.unsupported _) => exact ⟨nofun, fun hholds => absurd hholds h⟩
  | .error (.parse _) => exact ⟨nofun, fun hholds => absurd hholds h.1⟩

end Settles

/-! ## Atoms -/

/-- A number settles whether it is an integer that fits. -/
theorem lowerNumber_settles {token : Token} (hkind : token.kind = .number) (span : Span) :
    Settles (∃ value, IntegerLiteral.Denotes token.text value ∧ IntegerLiteral.Fits value) [token]
      (lowerNumber token.text span) := by
  have hfails : ∀ {fault}, IntegerLiteral.value? token.text = .error fault →
      ¬ ∃ value, IntegerLiteral.Denotes token.text value ∧ IntegerLiteral.Fits value := by
    rintro fault hfault ⟨value, hdenotes, hfits⟩
    have hvalue := IntegerLiteral.value?_eq_ok_iff.mpr ⟨value, hdenotes, hfits, rfl⟩
    rw [hfault] at hvalue
    contradiction
  unfold lowerNumber
  cases hvalue : IntegerLiteral.value? token.text with
  | ok v =>
      obtain ⟨value, hdenotes, hfits, -⟩ := IntegerLiteral.value?_eq_ok_iff.mp hvalue
      exact ⟨value, hdenotes, hfits⟩
  | error fault =>
      cases fault with
      | notInteger => exact .refuse (hfails hvalue) _ _
      | overflow => exact .refuse (hfails hvalue) _ _
      | malformed =>
          refine ⟨hfails hvalue, token, by simp, hkind, ?_, rfl⟩
          intro hnumeral
          exact IntegerLiteral.value?_ne_malformed hnumeral hvalue

/-- The token of an atom settles whether a script has a literal for it. -/
theorem lowerLiteral_settles {token : Token} (h : token.IsAtom) (atom : Tree) :
    Settles token.IsLiteral [token] (lowerLiteral atom token) := by
  unfold lowerLiteral
  cases hkind : token.kind with
  | name => exact .ok (Or.inl hkind) _
  | string => exact .ok (Or.inr (Or.inl hkind)) _
  | number =>
      refine (lowerNumber_settles hkind atom.span).congr ?_ (List.Subset.refl _)
      simp [Token.IsLiteral, hkind]
  | keyword =>
      have hword : token.text ∈ ["None", "True", "False"] := by
        simpa [Token.IsAtom, hkind] using h
      simp only [List.mem_cons, List.not_mem_nil, or_false] at hword
      rcases hword with hnone | htrue | hfalse
      · have hliteral : ¬ token.IsLiteral := by simp [Token.IsLiteral, hkind, hnone]
        simpa [hnone] using Settles.refuse hliteral _ _
      · have hliteral : token.IsLiteral := by simp [Token.IsLiteral, hkind, htrue]
        simpa [htrue] using Settles.ok hliteral _
      · have hliteral : token.IsLiteral := by simp [Token.IsLiteral, hkind, hfalse]
        simpa [hfalse] using Settles.ok hliteral _
  | operator =>
      have hdots : token.text = "..." := by simpa [Token.IsAtom, hkind] using h
      have hliteral : ¬ token.IsLiteral := by simp [Token.IsLiteral, hkind]
      simpa [hdots] using Settles.refuse hliteral _ _
  | _ => simp [Token.IsAtom, hkind] at h

/-- An atom of a single token settles whether a script has a literal for it. -/
theorem lowerAtom_settles {token : Token} (h : token.IsAtom) (span : Span) :
    Settles (Tree.node .atom [.leaf token] span).InSubset [token]
      (lowerAtom (.node .atom [.leaf token] span)) := by
  have hsettles := (lowerLiteral_settles h (.node .atom [.leaf token] span)).map
    fun value => Expr.literal value token.text span
  refine hsettles.congr ?_ (List.Subset.refl _)
  simp [Tree.inSubset_node_iff, Tree.Admitted]

/-- An atom of several children is refused when its first token says what it is,
or when it is made of strings. -/
theorem lowerAtom_composite {first : Token} {rest : List Tree} {span : Span} (hrest : rest ≠ [])
    (h : first.text ∈ ["(", "[", "\x7b"] ∨ (Tree.leaf first :: rest).all isStringToken) :
    ∃ construct, lowerAtom (.node .atom (.leaf first :: rest) span) = refuse construct span := by
  have hconstruct : ∃ construct, compositeAtom? first (.leaf first :: rest) = some construct := by
    unfold compositeAtom?
    split
    · exact ⟨_, rfl⟩
    split
    · exact ⟨_, rfl⟩
    split
    · exact ⟨_, rfl⟩
    rename_i hround hsquare hbrace
    rcases h with hbracket | hstrings
    · simp_all
    · rw [if_pos hstrings]
      exact ⟨_, rfl⟩
  obtain ⟨construct, hconstruct⟩ := hconstruct
  obtain ⟨second, others, rfl⟩ := List.exists_cons_of_ne_nil hrest
  exact ⟨construct, by simp [lowerAtom, hconstruct]⟩

/-- An atom of several children is outside the subset. -/
theorem composite_settles {first : Token} {rest : List Tree} {span : Span} {tokens : List Token}
    (hrest : rest ≠ [])
    (h : first.text ∈ ["(", "[", "\x7b"] ∨ (Tree.leaf first :: rest).all isStringToken) :
    Settles (Tree.node .atom (.leaf first :: rest) span).InSubset tokens
      (lowerExpression (.node .atom (.leaf first :: rest) span)) := by
  obtain ⟨construct, hrefuse⟩ := lowerAtom_composite hrest h
  have hlower : lowerExpression (.node .atom (.leaf first :: rest) span) =
      refuse construct span := by
    rw [lowerExpression_of_rule? rfl, lowerAs_atom rfl, hrefuse]
  refine .of_eq_refuse hlower (Tree.not_inSubset ?_)
  rintro ⟨token, hchildren, -⟩
  exact hrest (List.cons.inj hchildren).2

/-- Strings in a row are outside the subset. -/
theorem strings_settles {strings tokens : List Token} {span : Span} (hmany : 2 ≤ strings.length)
    (hstrings : ∀ token ∈ strings, token.kind = .string) :
    Settles (Tree.node .atom (strings.map .leaf) span).InSubset tokens
      (lowerExpression (.node .atom (strings.map .leaf) span)) := by
  cases strings with
  | nil => simp at hmany
  | cons first rest =>
      have hrest : rest.map Tree.leaf ≠ [] := by
        intro hnil
        simp [List.map_eq_nil_iff.mp hnil] at hmany
      have hall : (Tree.leaf first :: rest.map Tree.leaf).all isStringToken := by
        rw [← List.map_cons, List.all_eq_true]
        intro child hchild
        obtain ⟨token, htoken, rfl⟩ := List.mem_map.mp hchild
        simpa [isStringToken] using hstrings token htoken
      exact composite_settles hrest (Or.inr hall)

/-! ## Chains -/

/-- The spellings that a script has at the level of a chain are those of its
connectives. -/
theorem Rule.keptSpellings_eq {rule below : Rule} (hrule : (rule, below) ∈ Rule.chains) :
    rule.keptSpellings = rule.connectives.map Connective.spelling := by
  have hall : ∀ entry ∈ Rule.chains,
      entry.1.keptSpellings = entry.1.connectives.map Connective.spelling := by decide
  exact hall _ hrule

/-- The rules of the chains of the grammar are those that lowering reads as chains, with the
same operands. -/
theorem Rule.form_of_mem_chains {rule below : Rule} (hrule : (rule, below) ∈ Rule.chains) :
    rule.form = .chain ∧ rule.operand = below := by
  have hall : ∀ entry ∈ Rule.chains, entry.1.form = .chain ∧ entry.1.operand = entry.2 := by decide
  exact hall _ hrule

/-- The text of an operator of the grammar is that of its tokens. -/
theorem operatorText_of_isOperatorOf {rule : Rule} {operator : Tree}
    (h : operator.IsOperatorOf rule) :
    operatorText operator = .ok (operator.tokenText, operator.span) := by
  cases h with
  | token hor hand => simp [operatorText, Tree.tokenText]
  | words hwords => simp [operatorText]

/-- An operator settles whether a script has it at the level of its chain. -/
theorem lowerConnective_settles {rule below : Rule} {operator : Tree}
    (hrule : (rule, below) ∈ Rule.chains) (h : operator.IsOperatorOf rule) :
    Settles (operator.tokenText ∈ rule.keptSpellings) [] (lowerConnective rule operator) := by
  have htext := operatorText_of_isOperatorOf h
  rw [Rule.keptSpellings_eq hrule]
  cases hfound : rule.connective? operator.tokenText with
  | some connective =>
      have hlower : lowerConnective rule operator = .ok connective :=
        lowerConnective_eq_ok_iff.mpr ⟨_, _, htext, hfound⟩
      obtain ⟨hmem, hspelling⟩ := Rule.connective?_eq_some hfound
      rw [hlower]
      exact .ok (List.mem_map.mpr ⟨connective, hmem, hspelling⟩) _
  | none =>
      have hlower : lowerConnective rule operator =
          refuse (.operator operator.tokenText) operator.span := by
        simp [lowerConnective, htext, hfound, bind, Except.bind]
      refine .of_eq_refuse hlower ?_
      intro hmem
      obtain ⟨connective, hconnective, hspelling⟩ := List.mem_map.mp hmem
      have hnone := List.find?_eq_none.mp hfound connective hconnective
      exact hnone (by simpa using hspelling)

/-- The fold of a chain settles whether a script has all of its operators and
operands. -/
theorem lowerRest_settles {rule below : Rule} {chain : Tree} {left : Expr}
    {steps : List (Tree × Tree)} (hrule : (rule, below) ∈ Rule.chains)
    (hoperators : ∀ step ∈ steps, step.1.IsOperatorOf rule)
    (hoperands : ∀ step ∈ steps, step.2.rule? = some below)
    (hrest : ∀ step ∈ steps, Settles step.2.InSubset step.2.tokens (lowerAs below step.2)) :
    Settles (∀ step ∈ steps, step.1.tokenText ∈ rule.keptSpellings ∧ step.2.InSubset)
      ((Tree.chainTail steps).flatMap Tree.tokens)
      (lowerRest rule chain left (Tree.chainTail steps)) := by
  obtain ⟨-, rfl⟩ := Rule.form_of_mem_chains hrule
  induction steps generalizing left with
  | nil =>
      rw [Tree.chainTail, List.flatMap_nil, lowerRest]
      exact .ok (by simp) _
  | cons step steps ih =>
      have hcheck : checkOperand rule.operand chain step.2 = .ok () :=
        checkOperand_eq_ok_iff.mpr (hoperands step (by simp))
      have hlower : lowerRest rule chain left (Tree.chainTail (step :: steps)) =
          (lowerConnective rule step.1 >>= fun connective =>
            lowerAs rule.operand step.2 >>= fun right =>
              lowerRest rule chain (connective.apply left right) (Tree.chainTail steps)) := by
        rw [show Tree.chainTail (step :: steps) = step.1 :: step.2 :: Tree.chainTail steps from rfl,
          lowerRest, hcheck]
        rfl
      rw [hlower]
      have hsteps : ∀ left, Settles _ _ (lowerRest rule chain left (Tree.chainTail steps)) :=
        fun left => ih (fun other hother => hoperators other (List.mem_cons_of_mem _ hother))
          (fun other hother => hoperands other (List.mem_cons_of_mem _ hother))
          (fun other hother => hrest other (List.mem_cons_of_mem _ hother))
      have hconnective := lowerConnective_settles hrule (hoperators step (by simp))
      have hright := hrest step (by simp)
      refine (hconnective.bind fun connective => hright.bind fun right =>
        hsteps (connective.apply left right)).congr ?_ ?_
      · rw [List.forall_mem_cons, and_assoc]
      · intro token htoken
        rw [show Tree.chainTail (step :: steps) = step.1 :: step.2 :: Tree.chainTail steps from rfl]
        simp only [List.nil_append, List.mem_append, List.flatMap_cons] at htoken ⊢
        exact Or.inr htoken

/-- A chain settles whether it is in the subset when its operands do. -/
theorem lowerAs_chain_settles {rule below : Rule} {first : Tree} {steps : List (Tree × Tree)}
    {span : Span} (hrule : (rule, below) ∈ Rule.chains) (hbelow : first.rule? = some below)
    (hoperators : ∀ step ∈ steps, step.1.IsOperatorOf rule)
    (hoperands : ∀ step ∈ steps, step.2.rule? = some below)
    (hfirst : Settles first.InSubset first.tokens (lowerAs below first))
    (hrest : ∀ step ∈ steps, Settles step.2.InSubset step.2.tokens (lowerAs below step.2)) :
    Settles (Tree.node rule (first :: Tree.chainTail steps) span).InSubset
      (Tree.node rule (first :: Tree.chainTail steps) span).tokens
      (lowerAs rule (.node rule (first :: Tree.chainTail steps) span)) := by
  obtain ⟨hform, hoperand⟩ := Rule.form_of_mem_chains hrule
  have hlength := Tree.length_chainTail steps
  have hsubset : (Tree.node rule (first :: Tree.chainTail steps) span).InSubset ↔ _ :=
    Tree.inSubset_chain_iff hrule hbelow hoperators hoperands
  by_cases hshort : rule = .comparison → steps.length ≤ 1
  · rw [lowerAs_chain hform (by omega) (fun hcomparison => by have := hshort hcomparison; omega)
      (hoperand ▸ hbelow), hoperand]
    refine (hfirst.bind fun left =>
      lowerRest_settles hrule hoperators hoperands hrest).congr ?_ (by simp)
    rw [hsubset]
    exact and_iff_right hshort
  · have hout : ¬ (Tree.node rule (first :: Tree.chainTail steps) span).InSubset :=
      fun h => hshort (hsubset.mp h).1
    push Not at hshort
    obtain ⟨rfl, hlong⟩ := hshort
    have hchildren : 3 < (first :: Tree.chainTail steps).length := by
      rw [List.length_cons, hlength]
      omega
    exact .of_exit (.longComparison rfl hchildren) hout

/-! ## Levels with a single child -/

/-- A level that hands over to its only child settles what the child settles. -/
theorem lowerExpression_inner_settles {rule below : Rule} {child : Tree} {span : Span}
    (hinner : rule.form.inner? = some below) (hbelow : child.rule? = some below)
    (hadmitted : (Tree.node rule [child] span).Admitted)
    (h : Settles child.InSubset child.tokens (lowerExpression child)) :
    Settles (Tree.node rule [child] span).InSubset (Tree.node rule [child] span).tokens
      (lowerExpression (.node rule [child] span)) := by
  rw [lowerExpression_of_rule? rfl, lowerAs_inner hinner hbelow, ← lowerExpression_of_rule? hbelow]
  refine h.congr ?_ (by simp)
  rw [Tree.inSubset_node_iff, List.forall_mem_singleton]
  exact and_iff_right hadmitted

/-! ## Prefix operators -/

/-- The signs that lowering knows are those that a script may have. -/
theorem exists_sign_iff {spelling : String} :
    (∃ operator, sign? spelling = some operator) ↔ spelling ∈ Rule.factor.keptSpellings := by
  constructor
  · rintro ⟨operator, hsign⟩
    obtain ⟨hoperator, hspelling⟩ := sign?_eq_some hsign
    rw [← hspelling]
    rcases hoperator with rfl | rfl <;> decide
  · intro hmem
    simp only [Rule.keptSpellings, List.mem_cons, List.not_mem_nil, or_false] at hmem
    rcases hmem with rfl | rfl
    · exact ⟨.plus, by decide⟩
    · exact ⟨.minus, by decide⟩

/-- A negation settles what its operand settles. -/
theorem negation_settles {word : Token} {operand : Tree} {span : Span}
    (hword : word.is .keyword "not") (hrule : operand.rule? = some .notTest)
    (h : Settles operand.InSubset operand.tokens (lowerExpression operand)) :
    Settles (Tree.node .notTest [.leaf word, operand] span).InSubset
      (Tree.node .notTest [.leaf word, operand] span).tokens
      (lowerExpression (.node .notTest [.leaf word, operand] span)) := by
  rw [lowerExpression_of_rule? rfl, lowerAs_negation rfl hword hrule,
    ← lowerExpression_of_rule? hrule]
  refine (h.map _).congr ?_ (by simp)
  simp [Tree.inSubset_node_iff, Tree.Admitted]

/-- A sign settles whether a script has it and what its operand settles. -/
theorem sign_settles {sign : Token} {operand : Tree} {span : Span}
    (hrule : operand.rule? = some .factor)
    (h : Settles operand.InSubset operand.tokens (lowerExpression operand)) :
    Settles (Tree.node .factor [.leaf sign, operand] span).InSubset
      (Tree.node .factor [.leaf sign, operand] span).tokens
      (lowerExpression (.node .factor [.leaf sign, operand] span)) := by
  have hsubset : (Tree.node .factor [.leaf sign, operand] span).InSubset ↔
      sign.text ∈ Rule.factor.keptSpellings ∧ operand.InSubset := by
    simp [Tree.inSubset_node_iff, Tree.Admitted, Tree.KeepsOperators, Tree.IsOperator, hrule,
      Tree.tokenText]
  cases hsign : sign? sign.text with
  | none =>
      refine .of_exit (.foreignSign rfl hrule hsign) ?_
      intro hin
      obtain ⟨operator, hoperator⟩ := exists_sign_iff.mpr (hsubset.mp hin).1
      rw [hsign] at hoperator
      contradiction
  | some operator =>
      rw [lowerExpression_of_rule? rfl, lowerAs_sign rfl hsign hrule,
        ← lowerExpression_of_rule? hrule]
      refine (h.map _).congr ?_ (by simp)
      rw [hsubset]
      exact and_iff_right (exists_sign_iff.mp ⟨operator, hsign⟩)

/-! ## Tests, lists and trailers -/

/-- A test settles what its disjunction settles; a lambda expression is outside the subset. -/
theorem test_settles {inner : Tree} {span : Span}
    (hrule : inner.rule? = some .orTest ∨ inner.rule? = some .lambdef)
    (h : Settles inner.InSubset inner.tokens (lowerExpression inner)) :
    Settles (Tree.node .test [inner] span).InSubset (Tree.node .test [inner] span).tokens
      (lowerExpression (.node .test [inner] span)) := by
  rcases hrule with hdisjunction | hlambda
  · exact lowerExpression_inner_settles rfl hdisjunction rfl h
  · refine .of_exit (.lambda rfl hlambda (by simp)) ?_
    intro hin
    exact Tree.not_inSubset_of_rule? (Or.inr hlambda)
      ((Tree.inSubset_node_iff.mp hin).2 inner (by simp))

/-- A list of one item, or the start of a list of at least two children. -/
theorem Tree.CommaSeparated.cases_length {items children : List Tree}
    (h : CommaSeparated items children) :
    (∃ item, items = [item] ∧ children = [item]) ∨
      ∃ first second rest, children = first :: second :: rest := by
  cases h with
  | single item => exact Or.inl ⟨item, rfl, rfl⟩
  | trailing item hcomma => exact Or.inr ⟨_, _, _, rfl⟩
  | cons item hcomma hrest => exact Or.inr ⟨_, _, _, rfl⟩

/-- A list of a single test settles what the test settles; all others are outside the subset. -/
theorem list_settles {rule : Rule} {items children : List Tree} {span : Span}
    (hrule : rule = .testlistStarExpr ∨ rule = .testlist)
    (hchildren : Tree.CommaSeparated items children)
    (hrules : ∀ item ∈ items, item.rule? = some .test ∨ item.rule? = some .starExpr)
    (hitems : ∀ item ∈ items, Settles item.InSubset item.tokens (lowerExpression item)) :
    Settles (Tree.node rule children span).InSubset (Tree.node rule children span).tokens
      (lowerExpression (.node rule children span)) := by
  have hform : rule.form = .list := by rcases hrule with rfl | rfl <;> rfl
  have hadmitted : (Tree.node rule children span).Admitted ↔ children.length = 1 := by
    rcases hrule with rfl | rfl <;> rfl
  rcases hchildren.cases_length with ⟨item, rfl, rfl⟩ | ⟨first, second, rest, rfl⟩
  · rcases hrules item (by simp) with htest | hstar
    · exact lowerExpression_inner_settles (by rw [hform]; rfl) htest (hadmitted.mpr rfl)
        (hitems item (by simp))
    · refine .of_exit (.starredItem hform hstar) ?_
      intro h
      exact Tree.not_inSubset_of_rule? (Or.inl hstar)
        ((Tree.inSubset_node_iff.mp h).2 item (by simp))
  · exact .of_exit (.manyItems hform) (Tree.not_inSubset fun h => by simpa using hadmitted.mp h)

/-- The first token of a trailer tells which construct it is. -/
theorem Tree.IsTrailer.exists_construct {trailer : Tree} (h : trailer.IsTrailer) :
    ∃ construct, trailerConstruct? trailer = some construct := by
  obtain ⟨-, token, htoken, htext⟩ := h
  simp only [List.mem_cons, List.not_mem_nil, or_false] at htext
  rcases htext with hcall | hsubscript | hattribute
  · exact ⟨.functionCalls, by simp [trailerConstruct?, htoken, hcall]⟩
  · exact ⟨.subscripts, by simp [trailerConstruct?, htoken, hsubscript]⟩
  · exact ⟨.attributeAccess, by simp [trailerConstruct?, htoken, hattribute]⟩

/-- An atom settles for itself; what follows it is outside the subset. -/
theorem trailed_settles {atom : Tree} {trailers : List Tree} {span : Span}
    (hrule : atom.rule? = some .atom) (htrailers : ∀ trailer ∈ trailers, trailer.IsTrailer)
    (h : Settles atom.InSubset atom.tokens (lowerExpression atom)) :
    Settles (Tree.node .atomExpr (atom :: trailers) span).InSubset
      (Tree.node .atomExpr (atom :: trailers) span).tokens
      (lowerExpression (.node .atomExpr (atom :: trailers) span)) := by
  cases trailers with
  | nil => exact lowerExpression_inner_settles rfl hrule rfl h
  | cons trailer trailers =>
      have htrailer := htrailers trailer (by simp)
      obtain ⟨construct, hconstruct⟩ := htrailer.exists_construct
      exact .of_exit (.trailer rfl hrule htrailer.1 hconstruct)
        (Tree.not_inSubset (by simp [Tree.Admitted]))

/-! ## Trees of the grammar -/

/-- On a tree of the grammar, lowering settles whether the tree is in the subset. -/
theorem Tree.Conforms.settles {tree : Tree} (h : tree.Conforms) :
    Settles tree.InSubset tree.tokens (lowerExpression tree) := by
  induction h with
  | list hrule hchildren hrules _ ih => exact list_settles hrule hchildren hrules ih
  | starred children span => exact .of_exit (.refused rfl) (not_inSubset_of_rule? (Or.inl rfl))
  | lambda children span => exact .of_exit (.refused rfl) (not_inSubset_of_rule? (Or.inr rfl))
  | test hrule _ ih => exact test_settles hrule ih
  | conditional _ _ hbody =>
      exact .of_exit (.conditional rfl hbody) (not_inSubset (by simp [Admitted]))
  | chain hrule hbelow _ hoperators hoperands _ ihfirst ihrest =>
      rw [lowerExpression_of_rule? rfl]
      rw [lowerExpression_of_rule? hbelow] at ihfirst
      refine lowerAs_chain_settles hrule hbelow hoperators hoperands ihfirst ?_
      intro step hstep
      rw [← lowerExpression_of_rule? (hoperands step hstep)]
      exact ihrest step hstep
  | negation hword hrule _ ih => exact negation_settles hword hrule ih
  | comparison hrule _ ih => exact lowerExpression_inner_settles rfl hrule trivial ih
  | sign hrule _ ih => exact sign_settles hrule ih
  | power hrule _ ih =>
      refine lowerExpression_inner_settles rfl hrule ?_ ih
      simp [Admitted, KeepsOperators, IsOperator, hrule]
  | base hrule _ ih => exact lowerExpression_inner_settles rfl hrule rfl ih
  | exponent _ hrule hrule' =>
      exact .of_exit (.exponent rfl hrule (by simp [hrule'])) (not_inSubset (by simp [Admitted]))
  | trailed hrule _ htrailers ih => exact trailed_settles hrule htrailers ih
  | awaited hword => exact .of_exit (.await rfl hword) (not_inSubset (by simp [Admitted]))
  | @atom token span htoken =>
      rw [lowerExpression_of_rule? rfl, lowerAs_atom rfl, tokens_node, List.flatMap_singleton,
        tokens_leaf]
      exact lowerAtom_settles htoken span
  | strings hmany hstrings => exact strings_settles hmany hstrings
  | display _ hbracket hrest => exact composite_settles hrest (Or.inl hbracket)

/-- A tree of the grammar is accepted exactly when all of its parts are
admitted.  It is reported as a syntax error only for a number in it that the
source language does not have, and otherwise for a construct outside the
subset. -/
theorem Tree.Conforms.accepted_iff {tree : Tree} (h : tree.Conforms) :
    ((∃ e, lowerExpression tree = .ok e) ↔ ∀ part : Tree, part.IsPartOf tree → part.Admitted) ∧
      ∀ failure, lowerExpression tree = .error (.parse failure) →
        ∃ token ∈ tree.tokens, token.kind = .number ∧
          ¬ IntegerLiteral.IsNumeral token.text ∧
          failure.fault = .malformedInteger token.text := by
  have hsettles := h.settles
  refine ⟨hsettles.exists_ok_iff, ?_⟩
  intro failure hfailure
  rw [hfailure] at hsettles
  exact hsettles.2

/-- The product of a name and a number that is not decimal. -/
def product : Tree :=
  .chain .term (.identifier "a") [("*", .numeral "0x1F")]

/-- A product that is accepted has nothing outside the subset in it. -/
theorem accepted_product : product.Conforms ∧ (∃ e, lowerExpression product = .ok e) ∧
    ∀ part : Tree, part.IsPartOf product → part.Admitted := by
  have hfactor : ∀ token : Token, token.IsAtom → ((Tree.atom token).lift .factor).Conforms :=
    fun token htoken => .power rfl (.base rfl (.trailed rfl (.atom htoken) (by simp)))
  have hname : ((Tree.identifier "a").lift .factor).Conforms := hfactor _ (Or.inl (by decide))
  have hnumber : ((Tree.numeral "0x1F").lift .factor).Conforms := hfactor _ (Or.inl (by decide))
  have hoperator : (Tree.leaf (.operator "*")).IsOperatorOf .term := .token nofun nofun
  have hconforms : product.Conforms := by
    have hchildren : product = .node .term ((Tree.identifier "a").lift .factor ::
        Tree.chainTail [(.leaf (.operator "*"), (Tree.numeral "0x1F").lift .factor)])
        product.span := rfl
    rw [hchildren]
    refine .chain (by decide) rfl hname ?_ ?_ ?_
    · simpa using hoperator
    · intro step hstep
      obtain rfl := List.mem_singleton.mp hstep
      rfl
    · simpa using hnumber
  exact ⟨hconforms, ⟨_, rfl⟩, hconforms.accepted_iff.1.mp ⟨_, rfl⟩⟩

end ScriptLowering
