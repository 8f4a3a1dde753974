import CssSieve.Proofs.Policy.Options

/-!
# What survives

The outline of a list of rules names its nodes in document order, each with the rules around it. For
a policy a node is `Valid` by itself or it is not, and it survives if it is and all the rules around
it are. The outline of a sanitized sheet is the outline of the sheet without the entries that do not
survive (`outline_rules_sanitize`), so what becomes of a node depends on nothing that stands beside
it. What is valid is said here in the words of the policy.
-/

namespace CssSieve

/-- What a sheet is made of: rules, and the declarations in them. -/
inductive Node where
  | rule (scope : Scope) (rule : Rule)
  | declaration (own : DeclarationPolicy) (declaration : Declaration)

/-- What a node says itself, apart from what it holds. -/
inductive Head where
  | style (prelude : List Value)
  | at (name : String) (prelude : List Value)
  | declaration (declaration : Declaration)
deriving DecidableEq

/-- A node with the rules around it, the outermost first. -/
structure Entry where
  enclosing : List Node
  node : Node

def Rule.head : Rule → Head
  | style r => .style r.prelude
  | .at r => .at r.name r.prelude

namespace Node

def head : Node → Head
  | rule _ r => r.head
  | declaration _ d => .declaration d

/-- What is left of the head where the node is kept. -/
def keptHead : Node → Head
  | rule _ r => r.head
  | declaration _ d => .declaration d.keptForm

end Node

namespace Entry

/-- The entry inside one more rule. -/
def under (outer : Node) (e : Entry) : Entry := ⟨outer :: e.enclosing, e.node⟩

/-- The heads of the rules around a node, and its own. -/
def shown (e : Entry) : List Head × Head := (e.enclosing.map Node.head, e.node.head)

/-- What the entry shows where it survives. -/
def keptShown (e : Entry) : List Head × Head := (e.enclosing.map Node.head, e.node.keptHead)

end Entry

namespace Policy

mutual

/-- The nodes of rules that stand together, in document order. -/
def outline (policy : Policy) (scope : Scope) (rules : List Rule) : List Entry :=
  match rules with
  | [] => []
  | r :: rs => policy.outlineOf scope r ++ policy.outline scope rs
termination_by (Rule.nestingAll rules, rules.length + 1)
decreasing_by
  · simp only [Rule.nestingAll, List.length_cons, Prod.lex_def]; omega
  · simp only [Rule.nestingAll, List.length_cons, Prod.lex_def]; omega

/-- A rule and the nodes in it, as far as the policy reads it. -/
def outlineOf (policy : Policy) (scope : Scope) (rule : Rule) : List Entry :=
  ⟨[], .rule scope rule⟩ ::
    match _h : policy.contents? scope rule with
    | none => []
    | some (.declarations own ds) => ds.map fun d => ⟨[.rule scope rule], .declaration own d⟩
    | some (.rules inner rules) => (policy.outline inner rules).map (·.under (.rule scope rule))
termination_by (rule.nesting, 0)
decreasing_by
  · have := nestingAll_lt_of_contents? _h
    simp only [Prod.lex_def]
    omega

end

/-- A node is valid for what it says itself. -/
def Valid (policy : Policy) : Node → Prop
  | .rule scope r => policy.Admits scope r
  | .declaration own d => own.Accepts d

instance (policy : Policy) : DecidablePred policy.Valid := fun n => by
  cases n <;> unfold Valid <;> infer_instance

/-- A node survives if it is valid and every rule around it is. -/
def Survives (policy : Policy) (e : Entry) : Prop :=
  (∀ n ∈ e.enclosing, policy.Valid n) ∧ policy.Valid e.node

instance (policy : Policy) : DecidablePred policy.Survives := fun e =>
  inferInstanceAs (Decidable ((∀ n ∈ e.enclosing, policy.Valid n) ∧ policy.Valid e.node))

variable {policy : Policy} {scope : Scope} {rule : Rule}

/-! ## Outlines -/

theorem outline_eq_flatMap (scope : Scope) (rules : List Rule) :
    policy.outline scope rules = rules.flatMap (policy.outlineOf scope) := by
  induction rules with
  | nil => rw [outline, List.flatMap_nil]
  | cons r rs ih => rw [outline, ih, List.flatMap_cons]

theorem outlineOf_of_none (unread : policy.contents? scope rule = none) :
    policy.outlineOf scope rule = [⟨[], .rule scope rule⟩] := by
  rw [outlineOf]
  split <;> simp_all

theorem outlineOf_of_declarations {own : DeclarationPolicy} {ds : List Declaration}
    (held : policy.contents? scope rule = some (.declarations own ds)) :
    policy.outlineOf scope rule =
      ⟨[], .rule scope rule⟩ :: ds.map fun d => ⟨[.rule scope rule], .declaration own d⟩ := by
  rw [outlineOf]
  split <;> simp_all

theorem outlineOf_of_rules {inner : Scope} {rules : List Rule}
    (held : policy.contents? scope rule = some (.rules inner rules)) :
    policy.outlineOf scope rule =
      ⟨[], .rule scope rule⟩ :: (policy.outline inner rules).map (·.under (.rule scope rule)) := by
  rw [outlineOf]
  split <;> simp_all

/-- A rule stands at or around every node of its outline. -/
theorem mem_outlineOf {e : Entry} (h : e ∈ policy.outlineOf scope rule) :
    .rule scope rule ∈ e.enclosing ∨ e.node = .rule scope rule := by
  rw [outlineOf] at h
  rcases List.mem_cons.mp h with rfl | h
  · exact Or.inr rfl
  · split at h
    next => cases h
    next own ds held =>
      obtain ⟨d, -, rfl⟩ := List.mem_map.mp h
      exact Or.inl List.mem_cons_self
    next inner rules held =>
      obtain ⟨e, -, rfl⟩ := List.mem_map.mp h
      exact Or.inl List.mem_cons_self

theorem survives_under {outer : Node} {e : Entry} :
    policy.Survives (e.under outer) ↔ policy.Valid outer ∧ policy.Survives e := by
  simp [Survives, Entry.under, and_assoc]

/-- Nothing in a rule that is not admitted survives. -/
theorem filter_outlineOf_of_not_admits (refused : ¬policy.Admits scope rule) :
    (policy.outlineOf scope rule).filter policy.Survives = [] := by
  rw [List.filter_eq_nil_iff]
  intro e he survives
  obtain ⟨around, itself⟩ := of_decide_eq_true survives
  rcases mem_outlineOf he with outer | same
  · exact refused (around _ outer)
  · exact refused (same ▸ itself : policy.Valid (.rule scope rule))

/-! ## What is shown -/

theorem map_shown_under (outer : Node) (es : List Entry) :
    (es.map (·.under outer)).map Entry.shown =
      (es.map Entry.shown).map fun s => (outer.head :: s.1, s.2) := by
  simp only [List.map_map]
  rfl

theorem map_keptShown_under (outer : Node) (es : List Entry) :
    (es.map (·.under outer)).map Entry.keptShown =
      (es.map Entry.keptShown).map fun s => (outer.head :: s.1, s.2) := by
  simp only [List.map_map]
  rfl

theorem filter_map_under {outer : Node} (valid : policy.Valid outer) (es : List Entry) :
    (es.map (·.under outer)).filter policy.Survives =
      (es.filter policy.Survives).map (·.under outer) := by
  simp [List.filter_map, Function.comp_def, survives_under, valid]

theorem filter_map_declaration (admitted : policy.Admits scope rule) (own : DeclarationPolicy)
    (ds : List Declaration) :
    (ds.map fun d => (⟨[.rule scope rule], .declaration own d⟩ : Entry)).filter policy.Survives =
      (ds.filter own.Accepts).map fun d => ⟨[.rule scope rule], .declaration own d⟩ := by
  have valid : policy.Valid (.rule scope rule) := admitted
  have valid_declaration (d : Declaration) : policy.Valid (.declaration own d) ↔ own.Accepts d :=
    Iff.rfl
  simp [List.filter_map, Function.comp_def, Survives, valid, valid_declaration]

theorem head_withDeclarations (ds : List Declaration) :
    (rule.withDeclarations ds).head = rule.head := by
  cases rule <;> rfl

theorem head_withRules (rules : List Rule) : (rule.withRules rules).head = rule.head := by
  cases rule <;> rfl

/-- What a rule becomes shows the entries of the rule that survive. -/
def Shows (policy : Policy) (scope : Scope) (rule : Rule) : Prop :=
  ((policy.keep scope rule).toList.flatMap (policy.outlineOf scope)).map Entry.shown =
    ((policy.outlineOf scope rule).filter policy.Survives).map Entry.keptShown

theorem outline_survivors_of_shows {rules : List Rule} (h : ∀ r ∈ rules, policy.Shows scope r) :
    (policy.outline scope (policy.survivors scope rules)).map Entry.shown =
      ((policy.outline scope rules).filter policy.Survives).map Entry.keptShown := by
  simp only [outline_eq_flatMap, survivors]
  induction rules with
  | nil => rfl
  | cons r rs ih =>
      have first := h r List.mem_cons_self
      have rest := ih fun q hq => h q (List.mem_cons_of_mem r hq)
      rw [Shows] at first
      rw [List.flatMap_cons, List.filter_append, List.map_append, ← first, ← rest,
        List.filterMap_cons]
      cases policy.keep scope r <;> simp

theorem shows_of_declarations {own : DeclarationPolicy} {ds : List Declaration}
    (admitted : policy.Admits scope rule)
    (held : policy.contents? scope rule = some (.declarations own ds)) :
    (policy.outlineOf scope (rule.withDeclarations (own.survivors ds))).map Entry.shown =
      ((policy.outlineOf scope rule).filter policy.Survives).map Entry.keptShown := by
  obtain ⟨-, reheld⟩ := admits_withDeclarations admitted held (own.survivors ds)
  have survives : policy.Survives ⟨[], .rule scope rule⟩ := ⟨by simp, admitted⟩
  rw [outlineOf_of_declarations reheld, outlineOf_of_declarations held,
    List.filter_cons_of_pos (by simpa using survives), filter_map_declaration admitted,
    DeclarationPolicy.survivors]
  simp [Entry.shown, Entry.keptShown, Node.head, Node.keptHead, head_withDeclarations]

theorem shows_of_rules {inner : Scope} {rules : List Rule} (admitted : policy.Admits scope rule)
    (held : policy.contents? scope rule = some (.rules inner rules))
    (h : ∀ r ∈ rules, policy.Shows inner r) :
    (policy.outlineOf scope (rule.withRules (policy.survivors inner rules))).map Entry.shown =
      ((policy.outlineOf scope rule).filter policy.Survives).map Entry.keptShown := by
  obtain ⟨-, reheld⟩ := admits_withRules admitted held (policy.survivors inner rules)
  have valid : policy.Valid (.rule scope rule) := admitted
  have survives : policy.Survives ⟨[], .rule scope rule⟩ := ⟨by simp, valid⟩
  rw [outlineOf_of_rules reheld, outlineOf_of_rules held,
    List.filter_cons_of_pos (by simpa using survives), filter_map_under valid, List.map_cons,
    List.map_cons, map_shown_under, map_keptShown_under, outline_survivors_of_shows h]
  simp [Entry.shown, Entry.keptShown, Node.head, Node.keptHead, head_withRules]

theorem shows (standard : policy.Standard) (scope : Scope) (rule : Rule) :
    policy.Shows scope rule := by
  induction scope, rule using induction_on_contents policy with
  | step scope rule ih =>
      have fate := fate_keep standard scope rule
      rw [Shows]
      generalize policy.keep scope rule = kept at fate
      cases fate with
      | dropped refused => rw [filter_outlineOf_of_not_admits refused]; rfl
      | declarations admitted held =>
          rw [Option.toList_some, List.flatMap_singleton]
          exact shows_of_declarations admitted held
      | rules admitted held =>
          rw [Option.toList_some, List.flatMap_singleton]
          exact shows_of_rules admitted held (ih _ _ held)

/-- The outline of a sanitized sheet is that of the sheet, less what does not survive. -/
theorem outline_rules_sanitize (standard : policy.Standard) (s : Sheet) :
    (policy.outline .sheet (policy.sanitize s).sheet.rules).map Entry.shown =
      ((policy.outline .sheet s.rules).filter policy.Survives).map Entry.keptShown := by
  rw [rules_sanitize standard]
  exact outline_survivors_of_shows fun r _ => shows standard .sheet r

/-! ## Blocks of what is kept -/

/-- An at-rule that is kept was admitted, and its block is read. -/
theorem exists_of_at_mem_survivors (standard : policy.Standard) {rules : List Rule} {r : AtRule}
    (h : .at r ∈ policy.survivors scope rules) :
    ∃ known block, policy.atRules.get? r.name = some known ∧
      ((∃ own ds kept, known.contents? block = some (.declarations own ds) ∧
        r.block = .declarations kept) ∨
      ∃ inner rs, known.contents? block = some (.rules inner rs) ∧
        r.block = .rules (policy.survivors inner rs)) := by
  obtain ⟨source, -, hkeep⟩ := List.mem_filterMap.mp h
  have fate := fate_keep standard scope source
  rw [hkeep] at fate
  cases source with
  | style source => cases fate
  | «at» source =>
      generalize same : some (Rule.at r) = kept at fate
      cases fate with
      | dropped => cases same
      | declarations admitted held =>
          cases same
          obtain ⟨-, known, found, held⟩ := known_of_contents? held
          exact ⟨known, source.block, found, Or.inl ⟨_, _, _, held, rfl⟩⟩
      | rules admitted held =>
          cases same
          obtain ⟨-, known, found, held⟩ := known_of_contents? held
          exact ⟨known, source.block, found, Or.inr ⟨_, _, held, rfl⟩⟩

end Policy

/-- A rule stands in a list, or somewhere inside a rule of the list. -/
inductive Rule.Inside : List Rule → Rule → Prop
  | here {rules : List Rule} {r : Rule} : r ∈ rules → Inside rules r
  | deeper {rules inner : List Rule} {name : String} {prelude : List Value} {r : Rule} :
      .at ⟨name, prelude, .rules inner⟩ ∈ rules → Inside inner r → Inside rules r

/-- The block of an at-rule is read as what its name calls for. -/
def AtRule.BlockRead (r : AtRule) : Prop :=
  (Text.lower r.name ∈ ["font-face", "page"] ∧ ∃ ds, r.block = .declarations ds) ∨
    (Text.lower r.name ∈ ["media", "keyframes"] ∧ ∃ rules, r.block = .rules rules)

theorem PolicyOptions.blockRead_of_inside_survivors {o : PolicyOptions} {scope : Scope}
    {rules : List Rule} {r : AtRule}
    (h : Rule.Inside (o.standardOnly.build.survivors scope rules) (.at r)) : r.BlockRead := by
  have standard := o.standard_standardOnly
  generalize kept_eq : o.standardOnly.build.survivors scope rules = kept at h
  generalize rule_eq : Rule.at r = rule at h
  induction h generalizing scope rules with
  | here hr =>
      subst kept_eq rule_eq
      obtain ⟨known, block, found, ⟨_, _, _, held, read⟩ | ⟨_, _, held, read⟩⟩ :=
        Policy.exists_of_at_mem_survivors standard hr
      · exact Or.inl ⟨lower_mem_of_declarations found held, _, read⟩
      · exact Or.inr ⟨lower_mem_of_rules found held, _, read⟩
  | deeper hr _ ih =>
      subst kept_eq
      obtain ⟨known, block, -, ⟨_, _, _, -, read⟩ | ⟨inner, rs, -, read⟩⟩ :=
        Policy.exists_of_at_mem_survivors standard hr
      · cases read
      · cases read
        exact ih rfl rule_eq

end CssSieve
