import CssSieve.Proofs.Policy.Options

/-!
# What is kept stays

A sheet that has been sanitized is not changed by the same policy again, and nothing more is said
about it. The second run does not repeat the first: blocks that were unread are read by then, and
annotations are in their flags. What carries the proof is that a kept rule is admitted again and
holds what it was rebuilt around (`admits_withDeclarations`, `admits_withRules`), so by induction on
what rules hold every kept rule passes its check unchanged (`checkIn_of_keep`).
-/

namespace CssSieve

namespace Policy

variable {policy : Policy}

theorem checkIn_withDeclarations {scope : Scope} {rule : Rule} {own : DeclarationPolicy}
    {ds : List Declaration} (admitted : policy.Admits scope rule)
    (held : policy.contents? scope rule = some (.declarations own ds)) (index : Nat) :
    policy.checkIn scope index (rule.withDeclarations (own.survivors ds)) =
      .keep (rule.withDeclarations (own.survivors ds)) := by
  obtain ⟨readmitted, reheld⟩ := admits_withDeclarations admitted held (own.survivors ds)
  rw [checkIn_of_declarations readmitted reheld, DeclarationPolicy.checkAll_survivors]
  cases rule <;> rfl

theorem checkIn_withRules {scope inner : Scope} {rule : Rule} {rules : List Rule}
    (admitted : policy.Admits scope rule)
    (held : policy.contents? scope rule = some (.rules inner rules))
    (settled : ∀ r ∈ policy.survivors inner rules, ∀ index,
      policy.checkIn inner index r = .keep r) (index : Nat) :
    policy.checkIn scope index (rule.withRules (policy.survivors inner rules)) =
      .keep (rule.withRules (policy.survivors inner rules)) := by
  obtain ⟨readmitted, reheld⟩ := admits_withRules admitted held (policy.survivors inner rules)
  rw [checkIn_of_rules readmitted reheld, checkAllIn, Checked.each_eq_self _ settled]
  cases rule <;> rfl

/-- A kept rule passes its check unchanged. -/
theorem checkIn_of_keep (standard : policy.Standard) {scope : Scope} {rule kept : Rule}
    (h : policy.keep scope rule = some kept) (index : Nat) :
    policy.checkIn scope index kept = .keep kept := by
  induction scope, rule using induction_on_contents policy generalizing kept index with
  | step scope rule ih =>
      have fate := fate_keep standard scope rule
      rw [h] at fate
      cases fate with
      | declarations admitted held => exact checkIn_withDeclarations admitted held index
      | rules admitted held =>
          apply checkIn_withRules admitted held
          intro r hr index
          obtain ⟨source, hsource, hkeep⟩ := List.mem_filterMap.mp hr
          exact ih _ _ held source hsource hkeep index

theorem checkAllIn_survivors (standard : policy.Standard) (scope : Scope) (rules : List Rule) :
    policy.checkAllIn scope (policy.survivors scope rules) =
      ⟨policy.survivors scope rules, []⟩ := by
  refine Checked.each_eq_self _ ?_ 0
  intro r hr index
  obtain ⟨source, -, hkeep⟩ := List.mem_filterMap.mp hr
  exact checkIn_of_keep standard hkeep index

theorem sanitize_of_checkAllIn {s : Sheet} {rules : List Rule} {ds : List Diagnostic}
    (h : policy.checkAllIn .sheet s.rules = ⟨rules, ds⟩) : policy.sanitize s = ⟨⟨rules⟩, ds⟩ := by
  rw [checkAllIn, ← checkFrom_eq_each] at h
  rw [sanitize, checkRules, h]

end Policy

/-- **Sanitizing twice is sanitizing once.** The second run changes nothing and reports nothing,
for every sheet and for every policy whose at-rules are of the four standard kinds. -/
theorem sanitize_sanitize (o : PolicyOptions) (added : ∀ e ∈ o.atRules, e.2.Standard)
    (s : Sheet) :
    o.build.sanitize (o.build.sanitize s).sheet = ⟨(o.build.sanitize s).sheet, []⟩ := by
  have standard := PolicyOptions.standard_build added
  have again : o.build.checkAllIn .sheet (o.build.sanitize s).sheet.rules =
      ⟨(o.build.sanitize s).sheet.rules, []⟩ := by
    rw [Policy.rules_sanitize standard, Policy.checkAllIn_survivors standard]
  exact Policy.sanitize_of_checkAllIn again

theorem sanitize_sanitize_supports :
    let o : PolicyOptions :=
      { primitives := .standard, atRules := [("supports", .mediaOf .standard)] }
    let s : Sheet :=
      ⟨[.at ⟨"SUPPORTS", [],
        .raw [.token (.ident "p"), .block '\x7b'
          [.token (.ident "color"), .token .colon, .token (.ident "red"), .token (.delim '!'),
            .token (.ident "important"), .token .semicolon, .token (.ident "junk")]]⟩]⟩
    (∀ e ∈ o.atRules, e.2.Standard) ∧
      o.build.sanitize (o.build.sanitize s).sheet = ⟨(o.build.sanitize s).sheet, []⟩ := by
  intro o s
  have added : ∀ e ∈ o.atRules, e.2.Standard := by
    intro e he
    cases List.mem_singleton.mp he
    trivial
  exact ⟨added, sanitize_sanitize o added s⟩

end CssSieve
