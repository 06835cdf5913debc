import ScriptLowering.Lowering.Expression

/-!
# Exits of the descent

Lowering an expression looks at a node, at the rules of its children and at their
tokens, and then either goes down to the operands of the node or stops.  Each form
of the grammar has its own way to go down and its own exits, and every node of it
has one or the other.  The exits are stated here once, with the part of the node
that each of them blames.

Main results:

- Definition `Exit`: what stops lowering before it goes down, and at which part.
- Theorem `Exit.lowerAs_eq_error`: lowering stops at an exit with the error of the
  part that is blamed.
- Theorem `descends_or_exit`: lowering goes down or there is an exit.
- Theorems `lowerAs_inner`, `lowerAs_chain_eq`, `lowerAs_negation`, `lowerAs_sign`
  and `lowerAs_atom`: what lowering does when it goes down.
-/

namespace ScriptLowering

/-! ## Faults -/

/-- What is wrong with a part of a tree. -/
inductive Fault where
  /-- It stands where the grammar expects something else. -/
  | mismatch (expected : String)
  /-- It is a construct outside the subset. -/
  | refusal (construct : Construct)

/-- The error about a part of a tree. -/
def Fault.errorAt (part : Tree) : Fault → LoweringError
  | .mismatch expected => .parse (.mismatch part expected)
  | .refusal construct => .unsupported ⟨construct, part.span⟩

/-! ## Going down -/

/-- A tree with a rule is a node. -/
theorem Tree.exists_node_of_rule? {tree : Tree} {rule : Rule} (h : tree.rule? = some rule) :
    ∃ children span, tree = .node rule children span := by
  cases tree with
  | leaf token => contradiction
  | node own children span =>
      obtain rfl : own = rule := Option.some.inj h
      exact ⟨children, span, rfl⟩

/-- Only a node of the rule passes for one. -/
@[simp]
theorem Tree.isNode_iff {tree : Tree} {rule : Rule} :
    tree.isNode rule = true ↔ tree.rule? = some rule := by
  simp [Tree.isNode]

/-- Only a token of the kind and the text passes for a given token. -/
theorem Tree.isToken_iff {tree : Tree} {kind : TokenKind} {text : String} :
    tree.isToken kind text = true ↔ ∃ token, tree = .leaf token ∧ token.is kind text := by
  cases tree <;> simp [Tree.isToken]

/-- The rule that the only child of a node of a given form applies when the
node hands over to it. -/
def Form.inner? : Form → Option Rule
  | .list => some .test
  | .test => some .orTest
  | .negation => some .comparison
  | .factor => some .power
  | .power => some .atomExpr
  | .atomExpr => some .atom
  | .chain | .atom | .refused _ | .foreign => none

/-- `not_test` is the only rule of its form. -/
theorem Rule.form_eq_negation_iff {rule : Rule} : rule.form = .negation ↔ rule = .notTest := by
  cases rule <;> simp [Rule.form]

/-- `factor` is the only rule of its form. -/
theorem Rule.form_eq_factor_iff {rule : Rule} : rule.form = .factor ↔ rule = .factor := by
  cases rule <;> simp [Rule.form]

/-- The children of a node, read as those of `rule`, are such that lowering goes down
to one of them, or reads the node as an atom. -/
inductive Descends (rule : Rule) : List Tree → Prop
  /-- A level with a single child hands over to the level below. -/
  | inner {below : Rule} {child : Tree} (hinner : rule.form.inner? = some below)
      (hbelow : child.rule? = some below) : Descends rule [child]
  /-- A chain has an operand after every operator; a comparison has one operator. -/
  | chain {first : Tree} {rest : List Tree} (hform : rule.form = .chain)
      (heven : rest.length % 2 = 0) (hshort : rule = .comparison → rest.length ≤ 2) :
      Descends rule (first :: rest)
  | negation {word : Token} {operand : Tree} (hform : rule.form = .negation)
      (hword : word.is .keyword "not") (hoperand : operand.rule? = some .notTest) :
      Descends rule [.leaf word, operand]
  | sign {sign : Token} {operand : Tree} {operator : UnaryOperator} (hform : rule.form = .factor)
      (hsign : sign? sign.text = some operator) (hoperand : operand.rule? = some .factor) :
      Descends rule [.leaf sign, operand]
  | atom {children : List Tree} (hform : rule.form = .atom) : Descends rule children

/-- A token before a factor. -/
def IsSigned (children : List Tree) : Prop :=
  ∃ (sign : Token) (operand : Tree),
    children = [.leaf sign, operand] ∧ operand.rule? = some .factor

/-- An operator between a base and an exponent. -/
def IsRaised (children : List Tree) : Prop :=
  ∃ (base : Tree) (operator : Token) (exponent : Tree),
    children = [base, .leaf operator, exponent] ∧ base.rule? = some .atomExpr ∧
      exponent.rule?.isSome

/-! ## Exits -/

/-- `Exit rule tree children part fault` when lowering a node with these children as
`rule` stops before it goes down, with a fault of a part: one of the children, or the
node `tree` itself. -/
inductive Exit (rule : Rule) (tree : Tree) : List Tree → Tree → Fault → Prop
  -- Lists.
  | noItem (hform : rule.form = .list) :
      Exit rule tree [] tree (.mismatch "at least one element")
  | starredItem {item : Tree} (hform : rule.form = .list) (hitem : item.rule? = some .starExpr) :
      Exit rule tree [item] item (.refusal .starredExpressions)
  | foreignItem {item : Tree} {other : Rule} (hform : rule.form = .list)
      (hitem : item.rule? = some other) (hother : other ∉ [.test, .starExpr]) :
      Exit rule tree [item] item (.mismatch "`test` or `star_expr`")
  | tokenItem {token : Token} (hform : rule.form = .list) :
      Exit rule tree [.leaf token] tree (.refusal .tupleExpressions)
  | manyItems {first second : Tree} {rest : List Tree} (hform : rule.form = .list) :
      Exit rule tree (first :: second :: rest) tree (.refusal .tupleExpressions)
  -- Tests.
  | noDisjunction (hform : rule.form = .test) : Exit rule tree [] tree (.mismatch "`or_test`")
  | lambda {inner : Tree} {own : Rule} (hform : rule.form = .test) (hinner : inner.rule? = some own)
      (hlambda : own ∈ [.lambdef, .lambdefNocond]) :
      Exit rule tree [inner] inner (.refusal .lambdaExpressions)
  | foreignTest {inner : Tree} {other : Rule} (hform : rule.form = .test)
      (hinner : inner.rule? = some other) (hother : other ∉ [.orTest, .lambdef, .lambdefNocond]) :
      Exit rule tree [inner] inner (.mismatch "`or_test` or `lambdef`")
  | tokenTest {token : Token} (hform : rule.form = .test) :
      Exit rule tree [.leaf token] tree (.mismatch "`or_test`")
  | conditional {body second : Tree} {rest : List Tree} (hform : rule.form = .test)
      (hbody : body.rule? = some .orTest) :
      Exit rule tree (body :: second :: rest) tree (.refusal .conditionalExpressions)
  | malformedConditional {body second : Tree} {rest : List Tree} (hform : rule.form = .test)
      (hbody : body.rule? ≠ some .orTest) :
      Exit rule tree (body :: second :: rest) tree (.mismatch "`or_test`")
  -- Chains.
  | longComparison {children : List Tree} (hrule : rule = .comparison)
      (hlong : 3 < children.length) :
      Exit rule tree children tree (.refusal .chainedComparisons)
  | evenChain {children : List Tree} (hform : rule.form = .chain)
      (hshort : rule = .comparison → children.length ≤ 3) (heven : children.length % 2 = 0) :
      Exit rule tree children tree (.mismatch "an odd-length operand/operator chain")
  -- Prefix operators.
  | malformedNegation {children : List Tree} (hform : rule.form = .negation)
      (hother : ¬ Descends rule children) :
      Exit rule tree children tree (.mismatch "`not not_test` or `comparison`")
  | foreignSign {sign : Token} {operand : Tree} (hform : rule.form = .factor)
      (hoperand : operand.rule? = some .factor) (hsign : sign? sign.text = none) :
      Exit rule tree [.leaf sign, operand] (.leaf sign) (.refusal (.operator sign.text))
  | malformedFactor {children : List Tree} (hform : rule.form = .factor)
      (hother : ¬ Descends rule children) (hunsigned : ¬ IsSigned children) :
      Exit rule tree children tree (.mismatch "a prefix operator or `power`")
  -- Powers.
  | exponent {base exponent : Tree} {operator : Token} (hform : rule.form = .power)
      (hbase : base.rule? = some .atomExpr) (hexponent : exponent.rule?.isSome) :
      Exit rule tree [base, .leaf operator, exponent] (.leaf operator)
        (.refusal (.operator operator.text))
  | malformedPower {children : List Tree} (hform : rule.form = .power)
      (hother : ¬ Descends rule children) (hraised : ¬ IsRaised children) :
      Exit rule tree children tree (.mismatch "`atom_expr` or `atom_expr ** factor`")
  -- Atoms with what stands around them.
  | noAtom (hform : rule.form = .atomExpr) :
      Exit rule tree [] tree (.mismatch "`atom` followed by trailers")
  | await {word : Token} {rest : List Tree} (hform : rule.form = .atomExpr)
      (hword : word.is .keyword "await") :
      Exit rule tree (.leaf word :: rest) tree (.refusal .awaitExpressions)
  | tokenAtom {token : Token} {rest : List Tree} (hform : rule.form = .atomExpr)
      (htoken : token.is .keyword "await" = false) :
      Exit rule tree (.leaf token :: rest) tree (.mismatch "`atom` followed by trailers")
  | foreignAtom {first : Tree} {other : Rule} {rest : List Tree} (hform : rule.form = .atomExpr)
      (hfirst : first.rule? = some other) (hother : other ≠ .atom) :
      Exit rule tree (first :: rest) first (.mismatch "`atom`")
  | trailer {atom trailer : Tree} {construct : Construct} {rest : List Tree}
      (hform : rule.form = .atomExpr) (hatom : atom.rule? = some .atom)
      (htrailer : trailer.rule? = some .trailer)
      (hconstruct : trailerConstruct? trailer = some construct) :
      Exit rule tree (atom :: trailer :: rest) trailer (.refusal construct)
  | malformedTrailer {atom trailer : Tree} {rest : List Tree} (hform : rule.form = .atomExpr)
      (hatom : atom.rule? = some .atom) (htrailer : trailer.rule? = some .trailer)
      (hconstruct : trailerConstruct? trailer = none) :
      Exit rule tree (atom :: trailer :: rest) trailer (.mismatch "`(`, `[` or `.`")
  | foreignTrailer {atom trailer : Tree} {rest : List Tree} (hform : rule.form = .atomExpr)
      (hatom : atom.rule? = some .atom) (htrailer : trailer.rule? ≠ some .trailer) :
      Exit rule tree (atom :: trailer :: rest) tree (.mismatch "`trailer`")
  -- Rules that are lowered in no way.
  | refused {children : List Tree} {construct : Construct}
      (hform : rule.form = .refused construct) :
      Exit rule tree children tree (.refusal construct)
  | foreign {children : List Tree} (hform : rule.form = .foreign) :
      Exit rule tree children tree (.mismatch "an expression")

/-- The part that an exit blames is the node or one of its children. -/
theorem Exit.part_eq_or_mem {rule : Rule} {tree part : Tree} {children : List Tree} {fault : Fault}
    (h : Exit rule tree children part fault) : part = tree ∨ part ∈ children := by
  cases h <;> simp

/-! ## Lowering at an exit -/

/-- A token is no expression, whatever rule it is lowered as. -/
theorem lowerAs_leaf (rule : Rule) (token : Token) :
    lowerAs rule (.leaf token) = mismatch (.leaf token) "an expression" := by
  rw [lowerAs]

/-- Every rule of a list lowers a node in the same way. -/
theorem lowerAs_eq_of_form {rule rule' : Rule} (h : rule.form = .list) (h' : rule'.form = .list)
    (tree : Tree) : lowerAs rule tree = lowerAs rule' tree := by
  rw [lowerAs.eq_def, lowerAs.eq_def rule']
  cases tree with
  | leaf token => rfl
  | node own children span => simp only [h, h']

/-- Only a comparison can be too long. -/
theorem isLong_eq_false {rule : Rule} {children : List Tree}
    (hshort : rule = .comparison → children.length ≤ 3) :
    (rule == .comparison && 3 < children.length) = false := by
  rw [Bool.and_eq_false_iff]
  by_cases hrule : rule = .comparison
  · exact Or.inr (decide_eq_false (Nat.not_lt.mpr (hshort hrule)))
  · exact Or.inl (beq_false_of_ne hrule)

section Node

variable {rule own : Rule} {children : List Tree} {span : Span}

/-- Lowering stops at an exit with the error of the part that is blamed. -/
theorem Exit.lowerAs_eq_error {part : Tree} {fault : Fault}
    (h : Exit rule (.node own children span) children part fault) :
    lowerAs rule (.node own children span) = .error (fault.errorAt part) := by
  rw [lowerAs.eq_def]
  cases h with
  | noItem hform => simp only [hform]; rfl
  | starredItem hform hitem => simp only [hform, hitem]; rfl
  | foreignItem hform hitem hother =>
      simp only [hform, hitem]
      split <;> simp_all [mismatch, Fault.errorAt]
  | tokenItem hform => simp only [hform]; rfl
  | manyItems hform => simp only [hform]; rfl
  | noDisjunction hform => simp only [hform]; rfl
  | lambda hform hinner hlambda =>
      simp only [hform, hinner]
      split <;> simp_all [refuse, Fault.errorAt]
  | foreignTest hform hinner hother =>
      simp only [hform, hinner]
      split <;> simp_all [mismatch, Fault.errorAt]
  | tokenTest hform => simp only [hform]; rfl
  | conditional hform hbody => simp [hform, hbody]; rfl
  | malformedConditional hform hbody => simp [hform, hbody]; rfl
  | longComparison hrule hlong => simp [hrule, Rule.form, hlong]; rfl
  | evenChain hform hshort heven =>
      -- The length of a comparison is looked at first.
      simp [hform, isLong_eq_false hshort, heven]
      rfl
  | malformedNegation hform hother =>
      simp only [hform]
      split
      · split
        · rename_i hcomparison
          exact absurd (.inner (by rw [hform]; rfl) (Tree.isNode_iff.mp hcomparison)) hother
        · rfl
      · split
        · rename_i hnegation
          rw [Bool.and_eq_true, Tree.isToken_iff, Tree.isNode_iff] at hnegation
          rcases hnegation with ⟨⟨token, rfl, hword⟩, hoperand⟩
          exact absurd (.negation hform hword hoperand) hother
        · rfl
      · rfl
  | foreignSign hform hoperand hsign => simp [hform, hoperand, hsign]; rfl
  | malformedFactor hform hother hunsigned =>
      simp only [hform]
      split
      · split
        · rename_i hpower
          exact absurd (.inner (by rw [hform]; rfl) (Tree.isNode_iff.mp hpower)) hother
        · rfl
      · split
        · rename_i hoperand
          exact absurd ⟨_, _, rfl, Tree.isNode_iff.mp hoperand⟩ hunsigned
        · rfl
      · rfl
  | @exponent base exponent operator hform hbase hexponent =>
      cases exponent with
      | leaf token => contradiction
      | node rule grandchildren place => simp [hform, hbase]; rfl
  | malformedPower hform hother hraised =>
      simp only [hform]
      split
      · split
        · rename_i hbase
          exact absurd (.inner (by rw [hform]; rfl) (Tree.isNode_iff.mp hbase)) hother
        · rfl
      · split
        · rename_i hbase
          exact absurd ⟨_, _, _, rfl, Tree.isNode_iff.mp hbase, rfl⟩ hraised
        · rfl
      · rfl
  | noAtom hform => simp only [hform]; rfl
  | await hform hword => simp only [hform, hword]; rfl
  | tokenAtom hform htoken => simp only [hform, htoken]; rfl
  | foreignAtom hform hfirst hother =>
      rcases Tree.exists_node_of_rule? hfirst with ⟨grandchildren, place, rfl⟩
      simp [hform, hother]
      rfl
  | trailer hform hatom htrailer hconstruct =>
      rcases Tree.exists_node_of_rule? hatom with ⟨grandchildren, place, rfl⟩
      simp [hform, refuseTrailer, htrailer, hconstruct]
      rfl
  | malformedTrailer hform hatom htrailer hconstruct =>
      rcases Tree.exists_node_of_rule? hatom with ⟨grandchildren, place, rfl⟩
      simp [hform, refuseTrailer, htrailer, hconstruct]
      rfl
  | foreignTrailer hform hatom htrailer =>
      rcases Tree.exists_node_of_rule? hatom with ⟨grandchildren, place, rfl⟩
      simp [hform, refuseTrailer, htrailer]
      rfl
  | refused hform => simp only [hform]; rfl
  | foreign hform => simp only [hform]; rfl

/-! ## Lowering that goes down -/

/-- An atom is read by itself. -/
theorem lowerAs_atom (hform : rule.form = .atom) (children : List Tree) (span : Span) :
    lowerAs rule (.node own children span) = lowerAtom (.node own children span) := by
  rw [lowerAs.eq_def]
  simp [hform]

/-- A level that hands over to the level below adds nothing of its own. -/
theorem lowerAs_inner {below : Rule} {child : Tree} (hinner : rule.form.inner? = some below)
    (hbelow : child.rule? = some below) :
    lowerAs rule (.node own [child] span) = lowerAs below child := by
  rw [lowerAs]
  cases hform : rule.form <;> simp [hform, Form.inner?] at hinner <;> subst hinner
  case list => simp [hbelow]
  case test => simp [hbelow]
  case negation => simp [hbelow]
  case factor => simp [hbelow]
  case power => simp [hbelow]
  case atomExpr =>
    rcases Tree.exists_node_of_rule? hbelow with ⟨grandchildren, place, rfl⟩
    exact (lowerAs_atom rfl grandchildren place).symm

/-- A chain is lowered by its first operand and the fold of what follows it. -/
theorem lowerAs_chain_eq {first : Tree} {rest : List Tree} (hform : rule.form = .chain)
    (heven : rest.length % 2 = 0) (hshort : rule = .comparison → rest.length ≤ 2) :
    lowerAs rule (.node own (first :: rest) span) =
      (checkOperand rule.operand (.node own (first :: rest) span) first >>= fun _ =>
        lowerAs rule.operand first >>= fun left =>
          lowerRest rule (.node own (first :: rest) span) left rest) := by
  have hlong : (rule == .comparison && 3 < (first :: rest).length) = false :=
    isLong_eq_false fun hrule => Nat.succ_le_succ (hshort hrule)
  have hodd : ((first :: rest).length % 2 == 0) = false := by
    apply beq_false_of_ne
    rw [List.length_cons]
    omega
  rw [lowerAs.eq_def]
  simp only [hform, hlong, hodd, Bool.false_eq_true, if_false]

/-- A negation wraps its operand. -/
theorem lowerAs_negation {word : Token} {operand : Tree} (hform : rule.form = .negation)
    (hword : word.is .keyword "not") (hoperand : operand.rule? = some .notTest) :
    lowerAs rule (.node own [.leaf word, operand] span) =
      (lowerAs .notTest operand >>= fun argument => .ok (.unary .not argument span)) := by
  have htoken := Tree.isToken_iff.mpr ⟨word, rfl, hword⟩
  rw [lowerAs.eq_def]
  simp [hform, htoken, hoperand, pure, Except.pure]

/-- A sign wraps its operand. -/
theorem lowerAs_sign {sign : Token} {operand : Tree} {operator : UnaryOperator}
    (hform : rule.form = .factor) (hsign : sign? sign.text = some operator)
    (hoperand : operand.rule? = some .factor) :
    lowerAs rule (.node own [.leaf sign, operand] span) =
      (lowerAs .factor operand >>= fun argument => .ok (.unary operator argument span)) := by
  rw [lowerAs.eq_def]
  simp [hform, hsign, hoperand, pure, Except.pure]

end Node

/-! ## Every node goes down or has an exit -/

/-- A list of one test goes down; all others have an exit. -/
theorem list_descends_or_exit {rule : Rule} (hform : rule.form = .list) (tree : Tree)
    (children : List Tree) :
    Descends rule children ∨ ∃ part fault, Exit rule tree children part fault := by
  rcases children with _ | ⟨item, _ | ⟨second, rest⟩⟩
  · exact Or.inr ⟨_, _, .noItem hform⟩
  · cases item with
    | leaf token => exact Or.inr ⟨_, _, .tokenItem hform⟩
    | node own grandchildren place =>
        by_cases htest : own = .test
        · exact Or.inl (.inner (by rw [hform]; rfl) (congrArg some htest))
        by_cases hstar : own = .starExpr
        · exact Or.inr ⟨_, _, .starredItem hform (congrArg some hstar)⟩
        · exact Or.inr ⟨_, _, .foreignItem hform rfl (by simp [htest, hstar])⟩
  · exact Or.inr ⟨_, _, .manyItems hform⟩

/-- A test with a single child, a disjunction, goes down; all others have an exit. -/
theorem test_descends_or_exit {rule : Rule} (hform : rule.form = .test) (tree : Tree)
    (children : List Tree) :
    Descends rule children ∨ ∃ part fault, Exit rule tree children part fault := by
  rcases children with _ | ⟨inner, _ | ⟨second, rest⟩⟩
  · exact Or.inr ⟨_, _, .noDisjunction hform⟩
  · cases inner with
    | leaf token => exact Or.inr ⟨_, _, .tokenTest hform⟩
    | node own grandchildren place =>
        by_cases htest : own = .orTest
        · exact Or.inl (.inner (by rw [hform]; rfl) (congrArg some htest))
        by_cases hlambda : own ∈ [.lambdef, .lambdefNocond]
        · exact Or.inr ⟨_, _, .lambda hform rfl hlambda⟩
        · exact Or.inr ⟨_, _, .foreignTest hform rfl (by simpa [htest] using hlambda)⟩
  · by_cases hbody : inner.rule? = some .orTest
    · exact Or.inr ⟨_, _, .conditional hform hbody⟩
    · exact Or.inr ⟨_, _, .malformedConditional hform hbody⟩

/-- A chain of odd length goes down, and a comparison when it is short as well; all others
have an exit. -/
theorem chain_descends_or_exit {rule : Rule} (hform : rule.form = .chain) (tree : Tree)
    (children : List Tree) :
    Descends rule children ∨ ∃ part fault, Exit rule tree children part fault := by
  by_cases hlong : rule = .comparison ∧ 3 < children.length
  · exact Or.inr ⟨_, _, .longComparison hlong.1 hlong.2⟩
  have hshort : rule = .comparison → children.length ≤ 3 :=
    fun hrule => Nat.le_of_not_lt fun hlength => hlong ⟨hrule, hlength⟩
  by_cases heven : children.length % 2 = 0
  · exact Or.inr ⟨_, _, .evenChain hform hshort heven⟩
  cases children with
  | nil => contradiction
  | cons first rest =>
      rw [List.length_cons] at heven hshort
      exact Or.inl (.chain hform (by omega) fun hrule => Nat.le_of_succ_le_succ (hshort hrule))

/-- A factor with a sign of a script goes down, as does a single power; all others have an
exit. -/
theorem factor_descends_or_exit {rule : Rule} (hform : rule.form = .factor) (tree : Tree)
    (children : List Tree) :
    Descends rule children ∨ ∃ part fault, Exit rule tree children part fault := by
  by_cases hdescends : Descends rule children
  · exact Or.inl hdescends
  right
  by_cases hsigned : IsSigned children
  · rcases hsigned with ⟨sign, operand, rfl, hoperand⟩
    cases hsign : sign? sign.text with
    | none => exact ⟨_, _, .foreignSign hform hoperand hsign⟩
    | some operator => exact absurd (.sign hform hsign hoperand) hdescends
  · exact ⟨_, _, .malformedFactor hform hdescends hsigned⟩

/-- A power without an exponent goes down; all others have an exit. -/
theorem power_descends_or_exit {rule : Rule} (hform : rule.form = .power) (tree : Tree)
    (children : List Tree) :
    Descends rule children ∨ ∃ part fault, Exit rule tree children part fault := by
  by_cases hdescends : Descends rule children
  · exact Or.inl hdescends
  right
  by_cases hraised : IsRaised children
  · rcases hraised with ⟨base, operator, exponent, rfl, hbase, hexponent⟩
    exact ⟨_, _, .exponent hform hbase hexponent⟩
  · exact ⟨_, _, .malformedPower hform hdescends hraised⟩

/-- An atom that nothing stands around goes down; all others have an exit. -/
theorem atomExpr_descends_or_exit {rule : Rule} (hform : rule.form = .atomExpr) (tree : Tree)
    (children : List Tree) :
    Descends rule children ∨ ∃ part fault, Exit rule tree children part fault := by
  rcases children with _ | ⟨first, rest⟩
  · exact Or.inr ⟨_, _, .noAtom hform⟩
  cases first with
  | leaf token =>
      cases hword : token.is .keyword "await" with
      | true => exact Or.inr ⟨_, _, .await hform hword⟩
      | false => exact Or.inr ⟨_, _, .tokenAtom hform hword⟩
  | node own grandchildren place =>
      by_cases hatom : own = .atom
      · have hrule : (Tree.node own grandchildren place).rule? = some .atom := congrArg some hatom
        cases rest with
        | nil => exact Or.inl (.inner (by rw [hform]; rfl) hrule)
        | cons trailer rest =>
            by_cases htrailer : trailer.rule? = some .trailer
            · cases hconstruct : trailerConstruct? trailer with
              | none => exact Or.inr ⟨_, _, .malformedTrailer hform hrule htrailer hconstruct⟩
              | some construct => exact Or.inr ⟨_, _, .trailer hform hrule htrailer hconstruct⟩
            · exact Or.inr ⟨_, _, .foreignTrailer hform hrule htrailer⟩
      · exact Or.inr ⟨_, _, .foreignAtom hform rfl hatom⟩

/-- Lowering a node goes down, or there is an exit. -/
theorem descends_or_exit (rule : Rule) (tree : Tree) (children : List Tree) :
    Descends rule children ∨ ∃ part fault, Exit rule tree children part fault := by
  cases hform : rule.form with
  | list => exact list_descends_or_exit hform tree children
  | test => exact test_descends_or_exit hform tree children
  | chain => exact chain_descends_or_exit hform tree children
  | negation =>
      by_cases hdescends : Descends rule children
      · exact Or.inl hdescends
      · exact Or.inr ⟨_, _, .malformedNegation hform hdescends⟩
  | factor => exact factor_descends_or_exit hform tree children
  | power => exact power_descends_or_exit hform tree children
  | atomExpr => exact atomExpr_descends_or_exit hform tree children
  | atom => exact Or.inl (.atom hform)
  | refused construct => exact Or.inr ⟨_, _, .refused hform⟩
  | foreign => exact Or.inr ⟨_, _, .foreign hform⟩

end ScriptLowering
