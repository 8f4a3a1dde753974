import CssSieve.Proofs.Policy.Deletion
import CssSieve.Proofs.Policy.Idempotence
import CssSieve.Proofs.Sheet.RoundTrip

/-!
# Reading back what was kept

A sanitized sheet can be written as tokens, read again and sanitized again, and nothing changes. It
does not come back as it was: the blocks of its at-rules, which had been read, are unread again. So
the second check meets other rules than the first gave. What carries the proof is `Rereads`: a kept
rule is legible, its values can stand where it stood, and its unread form passes as the rule that
was kept. For rules inside rules this goes by induction on what rules hold.
-/

namespace CssSieve

open Value (Fits inBraces)

/-! ## Preludes and blocks -/

namespace Rule

/-- What stands before the block of a rule. -/
def prelude : Rule → List Value
  | style r => r.prelude
  | .at r => r.prelude

variable {topLevel : Bool} {rule : Rule}

theorem Legible.withDeclarations (h : rule.Legible topLevel) {ds : List Declaration}
    (each : ∀ d ∈ ds, d.Legible) : (rule.withDeclarations ds).Legible topLevel := by
  cases rule with
  | style r =>
      have legible : r.Legible topLevel := h
      exact { legible with declarations := each }
  | «at» r =>
      have legible : r.Legible := h
      exact { legible with }

theorem Legible.withRules (h : rule.Legible topLevel) (rules : List Rule) :
    (rule.withRules rules).Legible topLevel := by
  cases rule with
  | style r => exact h
  | «at» r =>
      have legible : r.Legible := h
      exact { legible with }

variable {gs : List OpenGroup}

theorem fits_withDeclarations (before : ∀ v ∈ rule.prelude, Fits gs v) {ds : List Declaration}
    (each : ∀ d ∈ ds, ∀ v ∈ d.value, Fits inBraces v) :
    ∀ v ∈ (rule.withDeclarations ds).values, Fits gs v := by
  cases rule with
  | style r => exact fits_values_style before each
  | «at» r =>
      refine fits_values_at (r := ⟨r.name, r.prelude, .declarations ds⟩) before ?_
      intro vs hvs
      cases hvs
      exact Declaration.fits_blockValues each

theorem fits_valuesAll {rules : List Rule} (each : ∀ r ∈ rules, ∀ v ∈ r.values, Fits gs v) :
    ∀ v ∈ valuesAll rules, Fits gs v := by
  induction rules with
  | nil => simp [valuesAll]
  | cons r rs ih =>
      obtain ⟨first, others⟩ := List.forall_mem_cons.mp each
      rw [valuesAll]
      exact List.forall_mem_cons.mpr
        ⟨Value.fits_token rfl, List.forall_mem_append.mpr ⟨first, ih others⟩⟩

theorem fits_withRules {r : AtRule} (before : ∀ v ∈ r.prelude, Fits gs v) {rules : List Rule}
    (each : ∀ r ∈ rules, ∀ v ∈ r.values, Fits inBraces v) :
    ∀ v ∈ ((Rule.at r).withRules rules).values, Fits gs v := by
  refine fits_values_at (r := ⟨r.name, r.prelude, .rules rules⟩) before ?_
  intro vs hvs
  cases hvs
  have space : Fits inBraces (.token .whitespace) := Value.fits_token rfl
  exact List.forall_mem_append.mpr ⟨fits_valuesAll each, by simp [space]⟩

/-- The rules of a block are read back from what stands between its braces. -/
theorem listOfValues_valuesAll {rules : List Rule} (each : ∀ r ∈ rules, r.Legible false) :
    listOfValues (valuesAll rules ++ [.token .whitespace]) = rules.map unread := by
  induction rules with
  | nil => rfl
  | cons r rs ih =>
      obtain ⟨first, others⟩ := List.forall_mem_cons.mp each
      rw [valuesAll, List.cons_append, List.append_assoc]
      show RuleReader.between.run false (r.values ++ _) = _
      rw [first.run_values, List.map_cons]
      exact congrArg (r.unread :: ·) (ih others)

end Rule

namespace RuleReader.ReadFrom

variable {topLevel : Bool} {P : Value → Prop} {rule : Rule}

theorem forall_mem_prelude (h : ReadFrom topLevel P rule) : ∀ v ∈ rule.prelude, P v := by
  intro v hv
  cases h with
  | style collected _ => exact (collected.each v (mem_of_mem_trim_reverse hv)).1
  | atAbsent collected => exact (collected v (mem_of_mem_trim_reverse hv)).1
  | atBlock collected _ => exact (collected v (mem_of_mem_trim_reverse hv)).1

end RuleReader.ReadFrom

theorem Sheet.ofTokens_tokens_of_legible {s : Sheet}
    (fits : ∀ r ∈ s.rules, ∀ v ∈ r.values, Fits [] v) (legible : ∀ r ∈ s.rules, r.Legible true) :
    (ofTokens s.tokens).rules = s.rules.map Rule.unread := by
  have formed : ∀ v ∈ s.values, v.WellFormed := by
    intro v hv
    obtain ⟨r, hr, hv⟩ := List.mem_flatMap.mp hv
    rcases List.mem_append.mp hv with hv | hv
    · exact (fits r hr v hv).1
    · obtain rfl := List.mem_singleton.mp hv
      exact .token rfl rfl
  have assembled : Value.ofTokens s.tokens = s.values := Value.ofTokens_tokensAll formed
  rw [ofTokens, assembled, ofValues_values legible]

/-! ## Unread rules are admitted like the rules they come from -/

namespace AtRulePolicy

theorem contents?_unread_declarations {known : AtRulePolicy} {own : DeclarationPolicy}
    {ds : List Declaration} (each : ∀ d ∈ ds, d.Legible)
    (held : known.contents? (.declarations ds) = some (.declarations own ds)) :
    known.contents? (AtBlock.declarations ds).unread = some (.declarations own ds) := by
  have reread : (AtBlock.declarations ds).unread.declarations? = some ds := by
    show some (Declaration.listOfValues (Declaration.blockValues ds)) = some ds
    rw [Declaration.listOfValues_blockValues each]
  cases known with
  | fontFace | page =>
      rw [contents?, AtBlock.declarations?] at held
      rw [contents?, reread]
      exact held
  | media | keyframes | custom => simp [contents?, AtBlock.rules?] at held

theorem contents?_unread_rules {known : AtRulePolicy} {scope : Scope} {rules : List Rule}
    (each : ∀ r ∈ rules, r.Legible false)
    (held : known.contents? (.rules rules) = some (.rules scope rules)) :
    known.contents? (AtBlock.rules rules).unread = some (.rules scope (rules.map Rule.unread)) := by
  have reread : (AtBlock.rules rules).unread.rules? = some (rules.map Rule.unread) := by
    show some (Rule.listOfValues (Rule.valuesAll rules ++ [.token .whitespace])) = _
    rw [Rule.listOfValues_valuesAll each]
  cases known with
  | media | keyframes =>
      cases held
      rw [contents?, reread]
      rfl
  | fontFace | page | custom => simp [contents?, AtBlock.declarations?] at held

end AtRulePolicy

namespace Policy

variable {policy : Policy} {scope : Scope} {rule : Rule}

theorem admits_unread_of_declarations {own : DeclarationPolicy} {ds : List Declaration}
    (each : ∀ d ∈ ds, d.Legible) (admitted : policy.Admits scope (rule.withDeclarations ds))
    (held : policy.contents? scope (rule.withDeclarations ds) = some (.declarations own ds)) :
    policy.Admits scope (rule.withDeclarations ds).unread ∧
      policy.contents? scope (rule.withDeclarations ds).unread = some (.declarations own ds) := by
  cases rule with
  | style r => exact ⟨admitted, held⟩
  | «at» r =>
      obtain ⟨-, known, found, held⟩ := known_of_contents? held
      exact admitted.withBlock found (AtRulePolicy.contents?_unread_declarations each held)

theorem admits_unread_of_rules {inner : Scope} {rules : List Rule}
    (each : ∀ r ∈ rules, r.Legible false) (admitted : policy.Admits scope (rule.withRules rules))
    (held : policy.contents? scope (rule.withRules rules) = some (.rules inner rules)) :
    policy.Admits scope (rule.withRules rules).unread ∧
      policy.contents? scope (rule.withRules rules).unread =
        some (.rules inner (rules.map Rule.unread)) := by
  cases rule with
  | style r => cases held
  | «at» r =>
      obtain ⟨-, known, found, held⟩ := known_of_contents? held
      exact admitted.withBlock found (AtRulePolicy.contents?_unread_rules each held)

/-! ## What a rule that was read holds -/

theorem exists_block_of_declarations {topLevel : Bool} {P : Value → Prop}
    (read : RuleReader.ReadFrom topLevel P rule) {own : DeclarationPolicy} {ds : List Declaration}
    (held : policy.contents? scope rule = some (.declarations own ds)) :
    ∃ vs, P (.block '\x7b' vs) ∧ ds = Declaration.listOfValues vs := by
  cases read with
  | @style _ contents _ block =>
      cases held
      exact ⟨contents, block, rfl⟩
  | atAbsent =>
      obtain ⟨-, known, -, held⟩ := known_of_contents? held
      cases AtRulePolicy.declarations?_of_contents? held
  | @atBlock _ _ contents _ block =>
      obtain ⟨-, known, -, held⟩ := known_of_contents? held
      cases AtRulePolicy.declarations?_of_contents? held
      exact ⟨contents, block, rfl⟩

theorem exists_block_of_rules {topLevel : Bool} {P : Value → Prop}
    (read : RuleReader.ReadFrom topLevel P rule) {inner : Scope} {rules : List Rule}
    (held : policy.contents? scope rule = some (.rules inner rules)) :
    ∃ vs, P (.block '\x7b' vs) ∧ rules = Rule.listOfValues vs := by
  cases read with
  | style => cases held
  | atAbsent =>
      obtain ⟨-, known, -, held⟩ := known_of_contents? held
      cases AtRulePolicy.rules?_of_contents? held
  | @atBlock _ _ contents _ block =>
      obtain ⟨-, known, -, held⟩ := known_of_contents? held
      cases AtRulePolicy.rules?_of_contents? held
      exact ⟨contents, block, rfl⟩

/-! ## Kept rules, written and read again -/

/-- Written inside the groups of a stack and read again, the rule passes its check as it is. -/
structure Rereads (policy : Policy) (scope : Scope) (topLevel : Bool) (gs : List OpenGroup)
    (kept : Rule) : Prop where
  legible : kept.Legible topLevel
  fits : ∀ v ∈ kept.values, Fits gs v
  passes : ∀ index, policy.checkIn scope index kept.unread = .keep kept

variable {topLevel : Bool} {gs : List OpenGroup}

theorem rereads_withDeclarations (read : RuleReader.ReadFrom topLevel (Fits gs) rule)
    (admitted : policy.Admits scope rule) {own : DeclarationPolicy} {ds : List Declaration}
    (held : policy.contents? scope rule = some (.declarations own ds)) :
    policy.Rereads scope topLevel gs (rule.withDeclarations (own.survivors ds)) := by
  obtain ⟨vs, block, rfl⟩ := exists_block_of_declarations read held
  have kept_of_read : own.survivors (Declaration.listOfValues vs) ⊆ Declaration.listOfValues vs :=
    (own.reduced_survivors vs).1.subset
  have each : ∀ d ∈ own.survivors (Declaration.listOfValues vs), d.Legible :=
    fun d hd => Declaration.legible_of_mem_listOfValues d (kept_of_read hd)
  have inside : ∀ v ∈ vs, Fits inBraces v := Value.fits_braces_iff.mp block
  constructor
  case legible => exact read.legible.withDeclarations each
  case fits =>
    apply Rule.fits_withDeclarations read.forall_mem_prelude
    intro d hd
    exact (Declaration.readFrom_of_mem_listOfValues inside d (kept_of_read hd)).forall_mem_value
  case passes =>
    intro index
    obtain ⟨readmitted, reheld⟩ := admits_withDeclarations admitted held
      (own.survivors (Declaration.listOfValues vs))
    obtain ⟨again, opened⟩ := admits_unread_of_declarations each readmitted reheld
    rw [checkIn_of_declarations again opened, DeclarationPolicy.checkAll_survivors]
    cases rule <;> rfl

theorem checkAllIn_unread {inner : Scope} {rules : List Rule}
    (each : ∀ r ∈ rules, policy.Rereads inner topLevel gs r) :
    policy.checkAllIn inner (rules.map Rule.unread) = ⟨rules, []⟩ :=
  Checked.each_map rules (fun r hr => (each r hr).passes) 0

theorem rereads_withRules (read : RuleReader.ReadFrom topLevel (Fits gs) rule)
    (admitted : policy.Admits scope rule) {inner : Scope} {rules : List Rule}
    (held : policy.contents? scope rule = some (.rules inner rules))
    (each : ∀ r ∈ policy.survivors inner rules, policy.Rereads inner false inBraces r) :
    policy.Rereads scope topLevel gs (rule.withRules (policy.survivors inner rules)) := by
  constructor
  case legible => exact read.legible.withRules _
  case fits =>
    cases rule with
    | style r => cases held
    | «at» r => exact Rule.fits_withRules read.forall_mem_prelude fun r hr => (each r hr).fits
  case passes =>
    intro index
    have legible : ∀ r ∈ policy.survivors inner rules, r.Legible false :=
      fun r hr => (each r hr).legible
    obtain ⟨readmitted, reheld⟩ := admits_withRules admitted held (policy.survivors inner rules)
    obtain ⟨again, opened⟩ := admits_unread_of_rules legible readmitted reheld
    rw [checkIn_of_rules again opened, checkAllIn_unread each]
    cases rule <;> rfl

/-- What is kept of a rule that was read from values which fit where it stands. -/
theorem rereads_of_keep (standard : policy.Standard)
    (read : RuleReader.ReadFrom topLevel (Fits gs) rule) {kept : Rule}
    (h : policy.keep scope rule = some kept) : policy.Rereads scope topLevel gs kept := by
  induction scope, rule using induction_on_contents policy generalizing topLevel gs kept with
  | step scope rule ih =>
      have fate := fate_keep standard scope rule
      rw [h] at fate
      cases fate with
      | declarations admitted held => exact rereads_withDeclarations read admitted held
      | rules admitted held =>
          obtain ⟨vs, block, rfl⟩ := exists_block_of_rules read held
          -- the rules inside were read from values between braces
          have inside : ∀ r ∈ Rule.listOfValues vs, RuleReader.ReadFrom false (Fits inBraces) r :=
            RuleReader.readFrom_of_mem_between (Value.fits_braces_iff.mp block)
          apply rereads_withRules read admitted held
          intro r hr
          obtain ⟨source, hsource, hkeep⟩ := List.mem_filterMap.mp hr
          exact ih _ _ held source hsource (inside source hsource) hkeep

theorem rereads_sanitizeTokens (standard : policy.Standard) (ts : List Token) :
    ∀ r ∈ (policy.sanitizeTokens ts).sheet.rules, policy.Rereads .sheet true [] r := by
  have fits : ∀ v ∈ Value.ofTokens ts, Fits [] v :=
    fun v hv => ⟨Value.wellFormed_of_mem_ofTokens v hv, by simp [Value.StaysIn]⟩
  have read : ∀ r ∈ (Sheet.ofTokens ts).rules, RuleReader.ReadFrom true (Fits []) r :=
    RuleReader.readFrom_of_mem_between fits
  rw [sanitizeTokens, rules_sanitize standard]
  intro r hr
  obtain ⟨source, hsource, hkeep⟩ := List.mem_filterMap.mp hr
  exact rereads_of_keep standard (read source hsource) hkeep

end Policy

/-- **What is handed back is settled.** The tokens of a sanitized sheet are read as a sheet again
that sanitizes to the same one, and nothing is said about it; for every policy whose at-rules are of
the four standard kinds. -/
theorem sanitizeTokens_tokens (o : PolicyOptions) (added : ∀ e ∈ o.atRules, e.2.Standard)
    (ts : List Token) :
    let sheet := (o.build.sanitizeTokens ts).sheet
    o.build.sanitizeTokens sheet.tokens = ⟨sheet, []⟩ := by
  intro sheet
  have again : ∀ r ∈ sheet.rules, o.build.Rereads .sheet true [] r :=
    Policy.rereads_sanitizeTokens (PolicyOptions.standard_build added) ts
  have reread : (Sheet.ofTokens sheet.tokens).rules = sheet.rules.map Rule.unread :=
    Sheet.ofTokens_tokens_of_legible (fun r hr => (again r hr).fits) fun r hr => (again r hr).legible
  apply Policy.sanitize_of_checkAllIn
  rw [reread]
  exact Policy.checkAllIn_unread again

/-- Rules in an at-rule that was added, with nothing closed at the end. -/
theorem sanitizeTokens_tokens_supports :
    let o : PolicyOptions :=
      { primitives := .standard, atRules := [("supports", .mediaOf .standard)] }
    let ts : List Token :=
      [.atKeyword "SUPPORTS", .leftBrace, .atKeyword "media", .whitespace, .ident "print",
        .leftBrace, .cdo, .ident "p", .leftBrace, .ident "--x", .colon, .rightParen, .delim '!',
        .semicolon, .ident "color", .colon, .ident "red", .delim '!', .ident "important"]
    (∀ e ∈ o.atRules, e.2.Standard) ∧
      let sheet := (o.build.sanitizeTokens ts).sheet
      o.build.sanitizeTokens sheet.tokens = ⟨sheet, []⟩ := by
  intro o ts
  have added : ∀ e ∈ o.atRules, e.2.Standard := by
    intro e he
    cases List.mem_singleton.mp he
    trivial
  exact ⟨added, sanitizeTokens_tokens o added ts⟩

end CssSieve
