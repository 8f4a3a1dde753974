import CssSieve.Proofs.Policy.Survival

/-!
# What is valid

Which rules and declarations are valid under given options with the four standard at-rules, said of
the options and not of the policy that is built from them. A rule or a declaration is a `Part` of a
sheet. What a rule holds is read by its name alone (`Rule.held?`), so the outline of a sheet is the
same whatever the options are. The policy that is built says the same of each: what a rule holds
(`contents?_standardOnly`), the outline (`outline_standardOnly`) and what is valid (`valid_node`).
Main result: sanitizing leaves exactly what is valid, in rules that are.
-/

namespace CssSieve

/-! ## Parts of a sheet -/

/-- What a sheet is made of, and where it stands. -/
inductive Part where
  /-- A rule, directly inside keyframes or in the list of a sheet or of a media rule. -/
  | rule (inKeyframes : Bool) (rule : Rule)
  /-- A declaration, in the block of `@font-face` or of any other rule. -/
  | declaration (inFontFace : Bool) (declaration : Declaration)

/-- A part with the rules around it, the outermost first. -/
structure Outlined where
  enclosing : List Part
  part : Part

/-- What is read of the inside of a rule, and where it stands there. -/
inductive Held where
  | declarations (inFontFace : Bool) (declarations : List Declaration)
  | rules (inKeyframes : Bool) (rules : List Rule)

/-- What an at-rule holds, which is read by its name. -/
def AtRule.held? (r : AtRule) : Option Held :=
  match Text.lower r.name with
  | "font-face" => r.block.declarations?.map (.declarations true)
  | "page" => r.block.declarations?.map (.declarations false)
  | "media" => r.block.rules?.map (.rules false)
  | "keyframes" => r.block.rules?.map (.rules true)
  | _ => none

/-- What a rule holds. An at-rule inside keyframes is not read. -/
def Rule.held? (inKeyframes : Bool) : Rule → Option Held
  | style r => some (.declarations false r.declarations)
  | .at r => if inKeyframes then none else r.held?

theorem AtRule.rules?_of_held? {r : AtRule} {inside : Bool} {rules : List Rule}
    (h : r.held? = some (.rules inside rules)) : r.block.rules? = some rules := by
  unfold held? at h
  split at h <;> simp at h
  all_goals exact h.1

theorem Rule.nestingAll_lt_of_held? {inKeyframes inside : Bool} {rule : Rule} {rules : List Rule}
    (h : rule.held? inKeyframes = some (.rules inside rules)) :
    nestingAll rules < rule.nesting := by
  cases rule with
  | style r => cases h
  | «at» r =>
      rw [held?] at h
      split at h
      next => cases h
      next =>
        rw [nesting, AtRule.nesting_eq]
        exact AtBlock.nestingAll_lt_of_rules? (AtRule.rules?_of_held? h)

namespace Part

def head : Part → Head
  | rule _ r => r.head
  | declaration _ d => .declaration d

/-- What is left of the head where the part is kept. -/
def keptHead : Part → Head
  | rule _ r => r.head
  | declaration _ d => .declaration d.keptForm

end Part

namespace Outlined

/-- The part inside one more rule. -/
def under (outer : Part) (p : Outlined) : Outlined := ⟨outer :: p.enclosing, p.part⟩

/-- The heads of the rules around a part, and its own. -/
def shown (p : Outlined) : List Head × Head := (p.enclosing.map Part.head, p.part.head)

/-- What the part shows where it is kept. -/
def keptShown (p : Outlined) : List Head × Head := (p.enclosing.map Part.head, p.part.keptHead)

end Outlined

mutual

/-- The parts of rules that stand together, in document order. -/
def Rule.outline (inKeyframes : Bool) (rules : List Rule) : List Outlined :=
  match rules with
  | [] => []
  | r :: rs => Rule.outlineOf inKeyframes r ++ Rule.outline inKeyframes rs
termination_by (Rule.nestingAll rules, rules.length + 1)
decreasing_by
  · simp only [Rule.nestingAll, List.length_cons, Prod.lex_def]; omega
  · simp only [Rule.nestingAll, List.length_cons, Prod.lex_def]; omega

/-- A rule and the parts in it. -/
def Rule.outlineOf (inKeyframes : Bool) (rule : Rule) : List Outlined :=
  ⟨[], .rule inKeyframes rule⟩ ::
    match _h : rule.held? inKeyframes with
    | none => []
    | some (.declarations inFontFace ds) =>
      ds.map fun d => ⟨[.rule inKeyframes rule], .declaration inFontFace d⟩
    | some (.rules inside rules) =>
      (Rule.outline inside rules).map (·.under (.rule inKeyframes rule))
termination_by (rule.nesting, 0)
decreasing_by
  · have := Rule.nestingAll_lt_of_held? _h
    simp only [Prod.lex_def]
    omega

end

namespace Rule

variable {inKeyframes : Bool} {rule : Rule}

theorem outline_eq_flatMap (inKeyframes : Bool) (rules : List Rule) :
    outline inKeyframes rules = rules.flatMap (outlineOf inKeyframes) := by
  induction rules with
  | nil => rw [outline, List.flatMap_nil]
  | cons r rs ih => rw [outline, ih, List.flatMap_cons]

theorem outlineOf_of_none (unread : rule.held? inKeyframes = none) :
    outlineOf inKeyframes rule = [⟨[], .rule inKeyframes rule⟩] := by
  rw [outlineOf]
  split <;> simp_all

theorem outlineOf_of_declarations {inFontFace : Bool} {ds : List Declaration}
    (held : rule.held? inKeyframes = some (.declarations inFontFace ds)) :
    outlineOf inKeyframes rule = ⟨[], .rule inKeyframes rule⟩ ::
      ds.map fun d => ⟨[.rule inKeyframes rule], .declaration inFontFace d⟩ := by
  rw [outlineOf]
  split <;> simp_all

theorem outlineOf_of_rules {inside : Bool} {rules : List Rule}
    (held : rule.held? inKeyframes = some (.rules inside rules)) :
    outlineOf inKeyframes rule = ⟨[], .rule inKeyframes rule⟩ ::
      (outline inside rules).map (·.under (.rule inKeyframes rule)) := by
  rw [outlineOf]
  split <;> simp_all

end Rule

/-! ## Validity -/

/-- The block is unread, or read as declarations. -/
def AtBlock.MayHoldDeclarations : AtBlock → Prop
  | raw _ | declarations _ => True
  | absent | rules _ => False

/-- The block is unread, or read as rules. -/
def AtBlock.MayHoldRules : AtBlock → Prop
  | raw _ | rules _ => True
  | absent | declarations _ => False

theorem AtBlock.mayHoldDeclarations_iff (block : AtBlock) :
    block.MayHoldDeclarations ↔ block.declarations?.isSome := by
  cases block <;> simp [MayHoldDeclarations, declarations?]

theorem AtBlock.mayHoldRules_iff (block : AtBlock) :
    block.MayHoldRules ↔ block.rules?.isSome := by
  cases block <;> simp [MayHoldRules, rules?]

instance : DecidablePred AtBlock.MayHoldDeclarations := fun block =>
  decidable_of_iff _ block.mayHoldDeclarations_iff.symm

instance : DecidablePred AtBlock.MayHoldRules := fun block =>
  decidable_of_iff _ block.mayHoldRules_iff.symm

namespace PolicyOptions

/-- One of the four standard at-rules, with the prelude and the block that its name calls for. -/
def ValidAtRule (o : PolicyOptions) (r : AtRule) : Prop :=
  Text.lower r.name = "font-face" ∧ (∀ v ∈ r.prelude, v.isWhitespace) ∧
      r.block.MayHoldDeclarations ∨
    Text.lower r.name = "media" ∧ (MediaQuery.list o.primitives).matchesAll r.prelude ∧
      r.block.MayHoldRules ∨
    Text.lower r.name = "keyframes" ∧
      (Grammar.oneOf [o.primitives.customIdent, o.primitives.string]).matchesAll r.prelude ∧
      r.block.MayHoldRules ∨
    Text.lower r.name = "page" ∧ Selector.pageList.matchesAll r.prelude ∧
      r.block.MayHoldDeclarations

/-- A custom property, or a property of the registry whose value is matched by its grammar or by
what any property accepts. An annotation of importance is taken from the value once, unless the flag
is set. -/
def ValidDeclaration (o : PolicyOptions) (inFontFace : Bool) (d : Declaration) : Prop :=
  let registry :=
    if inFontFace then o.fontFaceRegistry.getD (Property.fontFace o.primitives)
    else o.registry.getD (Property.standard o.primitives)
  let wide :=
    if inFontFace then o.primitives.wideKeywords else o.wide.getD o.primitives.wideKeywords
  let value := if d.important then d.value else (stripImportant d.value).1
  d.isCustomProperty ∨
    ∃ g ∈ registry.get? d.name, g.matchesAll value ∨ wide.matchesAll value

/-- What a part has to be, whatever stands around it. -/
def Valid (o : PolicyOptions) : Part → Prop
  | .rule inKeyframes (.style r) =>
    (if inKeyframes then Selector.keyframeList else Selector.list).matchesAll r.prelude
  | .rule inKeyframes (.at r) => inKeyframes = false ∧ o.ValidAtRule r
  | .declaration inFontFace d => o.ValidDeclaration inFontFace d

/-- A part survives if it is valid and every rule around it is. -/
def Survives (o : PolicyOptions) (p : Outlined) : Prop :=
  (∀ outer ∈ p.enclosing, o.Valid outer) ∧ o.Valid p.part

instance (o : PolicyOptions) : DecidablePred o.ValidAtRule := fun _ =>
  inferInstanceAs (Decidable (_ ∨ _))

instance (o : PolicyOptions) (inFontFace : Bool) : DecidablePred (o.ValidDeclaration inFontFace) :=
  fun _ => inferInstanceAs (Decidable (_ ∨ _))

instance (o : PolicyOptions) : DecidablePred o.Valid
  | .rule _ (.style _) => inferInstanceAs (Decidable (_ = true))
  | .rule _ (.at _) => inferInstanceAs (Decidable (_ ∧ _))
  | .declaration inFontFace d => inferInstanceAs (Decidable (o.ValidDeclaration inFontFace d))

instance (o : PolicyOptions) : DecidablePred o.Survives := fun _ =>
  inferInstanceAs (Decidable (_ ∧ _))

/-! ## The same in the words of the policy -/

/-- Where rules stand for the policy. -/
def scopeOf (o : PolicyOptions) (inKeyframes : Bool) : Scope :=
  if inKeyframes then .frames ⟨Selector.keyframeList, o.declarations⟩ else .sheet

/-- What the policy says of the declarations of a block. -/
def declarationsOf (o : PolicyOptions) (inFontFace : Bool) : DeclarationPolicy :=
  if inFontFace then
    .ofRegistry (o.fontFaceRegistry.getD (Property.fontFace o.primitives)) o.primitives
  else o.declarations

def node (o : PolicyOptions) : Part → Node
  | .rule inKeyframes r => .rule (o.scopeOf inKeyframes) r
  | .declaration inFontFace d => .declaration (o.declarationsOf inFontFace) d

def entry (o : PolicyOptions) (p : Outlined) : Entry := ⟨p.enclosing.map o.node, o.node p.part⟩

def contents (o : PolicyOptions) : Held → Contents
  | .declarations inFontFace ds => .declarations (o.declarationsOf inFontFace) ds
  | .rules inside rules => .rules (o.scopeOf inside) rules

variable {o : PolicyOptions}

/-- A policy opens an at-rule by its name. -/
theorem contents?_at_standardOnly (r : AtRule) :
    o.standardOnly.build.contents? .sheet (.at r) = r.held?.map o.contents := by
  have opened (known : AtRulePolicy)
      (listed : (Text.lower r.name, known) ∈ o.standardOnly.standard) :
      o.standardOnly.build.contents? .sheet (.at r) = known.contents? r.block := by
    rw [Policy.contents?, get?_standardOnly.mpr listed, Option.bind_some]
  rw [AtRule.held?]
  split
  next name =>
    rw [opened (.fontFaceOf _ _) (by rw [name]; exact .head _)]
    cases r.block <;> rfl
  next name =>
    rw [opened (.pageOf _) (by rw [name]; exact .tail _ (.tail _ (.tail _ (.head _))))]
    cases r.block <;> rfl
  next name =>
    rw [opened (.mediaOf _) (by rw [name]; exact .tail _ (.head _))]
    cases r.block <;> rfl
  next name =>
    rw [opened (.keyframesOf _ _) (by rw [name]; exact .tail _ (.tail _ (.head _)))]
    cases r.block <;> rfl
  next fontFace page media keyframes =>
    have unknown : o.standardOnly.build.atRules.get? r.name = none := by
      rw [Option.eq_none_iff_forall_ne_some]
      intro known found
      have listed := get?_standardOnly.mp found
      simp only [standard, List.mem_cons, List.not_mem_nil, or_false, Prod.mk.injEq] at listed
      rcases listed with ⟨name, -⟩ | ⟨name, -⟩ | ⟨name, -⟩ | ⟨name, -⟩
      exacts [fontFace name, media name, keyframes name, page name]
    rw [Policy.contents?, unknown]
    rfl

/-- A policy opens a rule as what stands where the rule does. -/
theorem contents?_standardOnly (inKeyframes : Bool) (rule : Rule) :
    o.standardOnly.build.contents? (o.scopeOf inKeyframes) rule =
      (rule.held? inKeyframes).map o.contents := by
  cases rule with
  | style r => cases inKeyframes <;> rfl
  | «at» r =>
      cases inKeyframes with
      | true => rfl
      | false => exact contents?_at_standardOnly r

theorem outline_of_outlineOf {inKeyframes : Bool} {rules : List Rule}
    (each : ∀ r ∈ rules, o.standardOnly.build.outlineOf (o.scopeOf inKeyframes) r =
      (r.outlineOf inKeyframes).map o.entry) :
    o.standardOnly.build.outline (o.scopeOf inKeyframes) rules =
      (Rule.outline inKeyframes rules).map o.entry := by
  rw [Policy.outline_eq_flatMap, Rule.outline_eq_flatMap, List.map_flatMap]
  exact List.flatMap_congr each

theorem outlineOf_standardOnly (inKeyframes : Bool) (rule : Rule) :
    o.standardOnly.build.outlineOf (o.scopeOf inKeyframes) rule =
      (rule.outlineOf inKeyframes).map o.entry := by
  generalize here : o.scopeOf inKeyframes = scope
  induction scope, rule using Policy.induction_on_contents o.standardOnly.build
    generalizing inKeyframes with
  | step scope rule ih =>
      subst here
      have opened := contents?_standardOnly (o := o) inKeyframes rule
      cases held : rule.held? inKeyframes with
      | none =>
          rw [held] at opened
          rw [Policy.outlineOf_of_none opened, Rule.outlineOf_of_none held]
          rfl
      | some inner =>
          rw [held] at opened
          cases inner with
          | declarations inFontFace ds =>
              rw [Policy.outlineOf_of_declarations opened, Rule.outlineOf_of_declarations held]
              simp [entry, node]
          | rules inside rules =>
              have inner : o.standardOnly.build.outline (o.scopeOf inside) rules =
                  (Rule.outline inside rules).map o.entry :=
                outline_of_outlineOf fun r hr => ih _ _ opened r hr inside rfl
              rw [Policy.outlineOf_of_rules opened, Rule.outlineOf_of_rules held, inner,
                List.map_cons, List.map_map, List.map_map]
              rfl

theorem outline_standardOnly (inKeyframes : Bool) (rules : List Rule) :
    o.standardOnly.build.outline (o.scopeOf inKeyframes) rules =
      (Rule.outline inKeyframes rules).map o.entry :=
  outline_of_outlineOf fun r _ => outlineOf_standardOnly inKeyframes r

/-! ## The same validity -/

theorem accepts_declarationsOf (inFontFace : Bool) (d : Declaration) :
    (o.declarationsOf inFontFace).Accepts d ↔ o.ValidDeclaration inFontFace d := by
  have value : (DeclarationPolicy.annotated d).value =
      if d.important then d.value else (stripImportant d.value).1 := by
    rw [DeclarationPolicy.annotated]
    split <;> rfl
  rw [DeclarationPolicy.Accepts, ValidDeclaration, value]
  cases inFontFace <;> rfl

theorem valid_node (part : Part) : o.standardOnly.build.Valid (o.node part) ↔ o.Valid part := by
  match part with
  | .declaration inFontFace d => exact accepts_declarationsOf inFontFace d
  | .rule inKeyframes (.style r) =>
      refine Policy.admits_style.trans ?_
      cases inKeyframes <;> rfl
  | .rule true (.at r) => exact iff_of_false id fun valid => nomatch valid.1
  | .rule false (.at r) =>
      refine admits_standardOnly.trans ?_
      rw [Valid, ValidAtRule]
      simp only [AtBlock.mayHoldDeclarations_iff, AtBlock.mayHoldRules_iff, true_and]
      rfl

theorem survives_entry (p : Outlined) :
    o.standardOnly.build.Survives (o.entry p) ↔ o.Survives p := by
  simp [Policy.Survives, Survives, entry, valid_node]

theorem head_node (part : Part) : (o.node part).head = part.head := by
  cases part <;> rfl

theorem keptHead_node (part : Part) : (o.node part).keptHead = part.keptHead := by
  cases part <;> rfl

theorem shown_entry (p : Outlined) : (o.entry p).shown = p.shown := by
  simp [Entry.shown, Outlined.shown, entry, head_node]

theorem keptShown_entry (p : Outlined) : (o.entry p).keptShown = p.keptShown := by
  simp [Entry.keptShown, Outlined.keptShown, entry, head_node, keptHead_node]

end PolicyOptions

end CssSieve
