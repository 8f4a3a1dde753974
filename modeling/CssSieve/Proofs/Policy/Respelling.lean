import CssSieve.Proofs.Policy.Accounting
import CssSieve.Proofs.Policy.CaseBlind
import CssSieve.Proofs.Sheet.Respelling

/-!
# Sanitizing does not see the case of names

A sheet that is spelled differently is checked in the same way: the same rules and declarations are
kept, in their own spelling, and the same is said of the others, at the same places. The proof goes
along the checks, for two sheets at once; what a rule holds is found by `contents?` on both sides.
-/

namespace CssSieve

/-! ## What is said -/

/-- The places are the same but for the spelling of properties. -/
inductive Location.Respelled (c : Respelling) : Location → Location → Prop
  | rule (index : Nat) : Respelled c (.rule index) (.rule index)
  | declaration (index : Nat) {a b : String} : c.names a b →
      Respelled c (.declaration index a) (.declaration index b)
  | value {a b : String} (offset : Nat) : c.names a b →
      Respelled c (.value a offset) (.value b offset)
  | nested (index : Nat) {l m : Location} : Respelled c l m →
      Respelled c (.nested index l) (.nested index m)

/-- The diagnostics have the same severity and the same code, and name the same place. -/
structure Diagnostic.Alike (c : Respelling) (d e : Diagnostic) : Prop where
  severity : d.severity = e.severity
  code : d.code = e.code
  location : d.location.Respelled c e.location

/-- What is kept is related, and the same is said of the rest. -/
structure Checked.Alike {α β : Type} (c : Respelling) (R : α → β → Prop) (x : Checked α)
    (y : Checked β) : Prop where
  kept : R x.kept y.kept
  diagnostics : List.Forall₂ (Diagnostic.Alike c) x.diagnostics y.diagnostics

variable {c : Respelling}

namespace Checked

variable {α β γ δ : Type} {R : α → β → Prop} {S : γ → δ → Prop}

theorem alike_keep {a : α} {b : β} (h : R a b) : Alike c (Option.Rel R) (keep a) (keep b) :=
  ⟨.some h, .nil⟩

theorem alike_drop {d e : Diagnostic} {ds es : List Diagnostic} (why : d.Alike c e)
    (notes : List.Forall₂ (Diagnostic.Alike c) ds es) :
    Alike c (Option.Rel R) (drop d ds) (drop e es) :=
  ⟨.none, .cons why notes⟩

theorem Alike.followedBy {x : Checked (Option α)} {y : Checked (Option β)} {xs : Checked (List α)}
    {ys : Checked (List β)} (first : Alike c (Option.Rel R) x y)
    (rest : Alike c (List.Forall₂ R) xs ys) :
    Alike c (List.Forall₂ R) (x.followedBy xs) (y.followedBy ys) :=
  ⟨List.rel_append (forall₂_toList first.kept) rest.kept,
    List.rel_append first.diagnostics rest.diagnostics⟩

theorem Alike.inside {x : Checked α} {y : Checked β} (h : Alike c R x y) (index : Nat)
    {f : α → γ} {g : β → δ} (rebuild : ∀ a b, R a b → S (f a) (g b)) :
    Alike c (Option.Rel S) (x.inside index f) (y.inside index g) := by
  refine ⟨.some (rebuild _ _ h.kept), ?_⟩
  apply List.rel_map _ h.diagnostics
  rintro d e ⟨severity, code, location⟩
  exact ⟨severity, code, .nested index location⟩

theorem alike_each {check : Nat → α → Checked (Option γ)} {check' : Nat → β → Checked (Option δ)}
    {as : List α} {bs : List β}
    (member : ∀ a ∈ as, ∀ b, R a b → ∀ index,
      Alike c (Option.Rel S) (check index a) (check' index b))
    (h : List.Forall₂ R as bs) (index : Nat) :
    Alike c (List.Forall₂ S) (each check index as) (each check' index bs) := by
  induction h generalizing index with
  | nil => exact ⟨.nil, .nil⟩
  | @cons a b _ _ first _ ih =>
      obtain ⟨here, others⟩ := List.forall_mem_cons.mp member
      exact (here b first index).followedBy (ih others (index + 1))

end Checked

/-! ## Declarations -/

namespace DeclarationPolicy

variable {policy : DeclarationPolicy} {d e : Declaration}

theorem annotated_respelled (h : d.Respelled c e) :
    (annotated d).Respelled c (annotated e) := by
  rw [annotated, annotated, ← h.important]
  split
  · exact h
  · obtain ⟨value, important⟩ := stripImportant_respelled h.value
    exact ⟨h.name, value, important⟩

theorem check_respelled (blind : policy.CaseBlind) (h : d.Respelled c e) (index : Nat) :
    (policy.check index d).Alike c (Option.Rel (Declaration.Respelled c))
      (policy.check index e) := by
  have custom : d.isCustomProperty = e.isCustomProperty := h.name.isCustomPropertyName_eq
  have known : policy.registry.get? d.name = policy.registry.get? e.name :=
    NameTable.get?_congr h.name.same
  rw [check, check, ← custom, ← known]
  split
  · exact Checked.alike_keep h
  · cases found : policy.registry.get? d.name with
    | none => exact Checked.alike_drop ⟨rfl, rfl, .declaration index h.name⟩ .nil
    | some grammar =>
        have grammarBlind : grammar.CaseBlind := blind.registry.leaves d.name grammar found
        have stripped := annotated_respelled h
        simp only [grammarBlind.matchesAll_eq stripped.value,
          blind.wide.matchesAll_eq stripped.value, grammarBlind.faults_eq stripped.value]
        split
        · exact Checked.alike_keep stripped
        · refine Checked.alike_drop ⟨rfl, rfl, .declaration index stripped.name⟩ ?_
          rw [faultNotes, faultNotes, List.forall₂_map_left_iff, List.forall₂_map_right_iff,
            List.forall₂_same]
          intro fault _
          exact ⟨rfl, rfl, .value _ stripped.name⟩

theorem checkAll_respelled (blind : policy.CaseBlind) {ds es : List Declaration}
    (h : List.Forall₂ (Declaration.Respelled c) ds es) :
    (policy.checkAll ds).Alike c (List.Forall₂ (Declaration.Respelled c))
      (policy.checkAll es) := by
  rw [checkAll, checkAll, checkFrom_eq_each, checkFrom_eq_each]
  exact Checked.alike_each (fun d _ e same => check_respelled blind same) h 0

end DeclarationPolicy

/-! ## What rules hold -/

def Scope.CaseBlind : Scope → Prop
  | sheet => True
  | frames policy => policy.CaseBlind

/-- Whatever is said of the contents, it does not see the case of names. -/
def Contents.CaseBlind : Contents → Prop
  | declarations policy _ => policy.CaseBlind
  | rules scope _ => scope.CaseBlind

/-- The contents are the same but for the spelling of their names. -/
inductive Contents.Respelled (c : Respelling) : Contents → Contents → Prop
  | declarations {policy : DeclarationPolicy} {ds es : List Declaration} :
      List.Forall₂ (Declaration.Respelled c) ds es →
      Respelled c (.declarations policy ds) (.declarations policy es)
  | rules {scope : Scope} {rs ss : List Rule} : List.Forall₂ (Rule.Respelled c) rs ss →
      Respelled c (.rules scope rs) (.rules scope ss)

namespace AtRulePolicy

variable {known : AtRulePolicy}

theorem CaseBlind.contents (blind : known.CaseBlind) {block : AtBlock} {held : Contents}
    (opened : known.contents? block = some held) : held.CaseBlind := by
  cases known with
  | custom check => exact blind.elim
  | fontFace descriptors =>
      obtain ⟨ds, -, rfl⟩ := Option.map_eq_some_iff.mp opened
      exact blind
  | page selectors own =>
      obtain ⟨ds, -, rfl⟩ := Option.map_eq_some_iff.mp opened
      exact blind.2
  | media queries =>
      obtain ⟨rs, -, rfl⟩ := Option.map_eq_some_iff.mp opened
      trivial
  | keyframes name frames =>
      obtain ⟨rs, -, rfl⟩ := Option.map_eq_some_iff.mp opened
      exact blind.2

theorem contents?_respelled {x y : AtBlock} (h : x.Respelled c y) (known : AtRulePolicy) :
    Option.Rel (Contents.Respelled c) (known.contents? x) (known.contents? y) := by
  have declarations := h.declarations?_rel
  have rules := h.rules?_rel
  cases known with
  | custom check => exact .none
  | fontFace own | page selectors own =>
      rw [contents?, contents?]
      generalize x.declarations? = left, y.declarations? = right at declarations
      cases declarations with
      | none => exact .none
      | some same => exact .some (.declarations same)
  | media queries | keyframes name frames =>
      rw [contents?, contents?]
      generalize x.rules? = left, y.rules? = right at rules
      cases rules with
      | none => exact .none
      | some same => exact .some (.rules same)

theorem all_isWhitespace_respelled {p q : List Value} (h : Value.RespelledAll c p q) :
    p.all Value.isWhitespace = q.all Value.isWhitespace := by
  induction h with
  | nil => rfl
  | cons first _ ih => rw [List.all_cons, List.all_cons, first.isWhitespace_eq, ih]

theorem preludeFault?_respelled (blind : known.CaseBlind) {p q : List Value}
    (h : Value.RespelledAll c p q) : known.preludeFault? p = known.preludeFault? q := by
  cases known with
  | custom check => exact blind.elim
  | fontFace descriptors =>
      rw [preludeFault?, preludeFault?, all_isWhitespace_respelled h]
  | media queries =>
      have blind : queries.CaseBlind := blind
      rw [preludeFault?, preludeFault?, blind.matchesAll_eq h]
  | keyframes name frames => rw [preludeFault?, preludeFault?, blind.1.matchesAll_eq h]
  | page selectors own => rw [preludeFault?, preludeFault?, blind.1.matchesAll_eq h]

end AtRulePolicy

/-! ## Rules -/

namespace Policy

variable {policy : Policy}

theorem styleRulesIn_caseBlind (blind : policy.CaseBlind) {scope : Scope} (h : scope.CaseBlind) :
    (policy.styleRulesIn scope).CaseBlind := by
  cases scope with
  | sheet => exact blind.styleRules
  | frames frames => exact h

/-- An at-rule whose prelude is in order, opened on both sides. -/
theorem checkBlock_respelled {known : AtRulePolicy} (blind : known.CaseBlind) {r s : AtRule}
    (name : c.writes r.name s.name) (prelude : Value.RespelledAll c r.prelude s.prelude)
    (block : r.block.Respelled c s.block)
    (inside : ∀ inner rules, known.contents? r.block = some (.rules inner rules) →
      inner.CaseBlind → ∀ others, List.Forall₂ (Rule.Respelled c) rules others →
      (policy.checkAllIn inner rules).Alike c (List.Forall₂ (Rule.Respelled c))
        (policy.checkAllIn inner others))
    (index : Nat) :
    ((policy.checkBlock known index r).as Rule.at).Alike c (Option.Rel (Rule.Respelled c))
      ((policy.checkBlock known index s).as Rule.at) := by
  have both := AtRulePolicy.contents?_respelled block known
  generalize opened : known.contents? r.block = held at both
  generalize opened' : known.contents? s.block = held' at both
  cases both with
  | none =>
      obtain ⟨why, dropped⟩ := exists_drop_of_misfit policy blind.standard
        (r := r) (by simp [AtRulePolicy.blockFits_iff, opened]) index
      obtain ⟨why', dropped'⟩ := exists_drop_of_misfit policy blind.standard
        (r := s) (by simp [AtRulePolicy.blockFits_iff, opened']) index
      rw [dropped, dropped']
      exact Checked.alike_drop ⟨rfl, rfl, .rule index⟩ .nil
  | some same =>
      have heldBlind := blind.contents opened
      cases same with
      | declarations same =>
          rw [checkBlock_of_declarations opened, checkBlock_of_declarations opened']
          apply (DeclarationPolicy.checkAll_respelled heldBlind same).inside
          intro ds es kept
          exact .at name prelude (.declarations kept)
      | rules same =>
          rw [checkBlock_of_rules opened, checkBlock_of_rules opened']
          apply (inside _ _ opened heldBlind _ same).inside
          intro rs ss kept
          exact .at name prelude (.rules kept)

theorem checkIn_respelled (blind : policy.CaseBlind) (scope : Scope) (rule : Rule) :
    scope.CaseBlind → ∀ other, rule.Respelled c other → ∀ index,
      (policy.checkIn scope index rule).Alike c (Option.Rel (Rule.Respelled c))
        (policy.checkIn scope index other) := by
  induction scope, rule using induction_on_contents policy with
  | step scope rule ih =>
      intro scopeBlind other h index
      cases h with
      | @style p q ds es prelude declarations =>
          have styleBlind := styleRulesIn_caseBlind blind scopeBlind
          rw [checkIn_style, checkIn_style, check_style, check_style,
            styleBlind.selectors.matchesAll_eq prelude]
          split
          · apply (DeclarationPolicy.checkAll_respelled styleBlind.declarations declarations).inside
            intro ds es kept
            exact .style prelude kept
          · exact Checked.alike_drop ⟨rfl, rfl, .rule index⟩ .nil
      | @«at» a b p q x y name prelude block =>
          cases scope with
          | frames frames => exact Checked.alike_drop ⟨rfl, rfl, .rule index⟩ .nil
          | sheet =>
              have same : policy.atRules.get? a = policy.atRules.get? b :=
                NameTable.get?_congr (c.same name)
              rw [checkIn, checkRule, checkRule, ← same]
              cases found : policy.atRules.get? a with
              | none => exact Checked.alike_drop ⟨rfl, rfl, .rule index⟩ .nil
              | some known =>
                  have knownBlind := blind.atRules a known found
                  simp only [AtRulePolicy.preludeFault?_respelled knownBlind prelude]
                  split
                  · exact Checked.alike_drop ⟨rfl, rfl, .rule index⟩ .nil
                  · apply checkBlock_respelled knownBlind name prelude block
                    intro inner rules opened innerBlind others related
                    have held : policy.contents? .sheet (.at ⟨a, p, x⟩) =
                        some (.rules inner rules) := by
                      rw [contents?, found]
                      exact opened
                    exact Checked.alike_each
                      (fun r listed s => ih inner rules held r listed innerBlind s) related 0

theorem CaseBlind.sanitize_respelled (blind : policy.CaseBlind) {s t : Sheet}
    (h : s.Respelled c t) :
    (policy.sanitize s).sheet.Respelled c (policy.sanitize t).sheet ∧
      List.Forall₂ (Diagnostic.Alike c) (policy.sanitize s).diagnostics
        (policy.sanitize t).diagnostics := by
  have checked : (policy.checkFrom 0 s.rules).Alike c (List.Forall₂ (Rule.Respelled c))
      (policy.checkFrom 0 t.rules) := by
    rw [checkFrom_eq_each, checkFrom_eq_each]
    exact Checked.alike_each (fun r _ => checkIn_respelled blind .sheet r trivial) h 0
  exact ⟨checked.kept, checked.diagnostics⟩

end Policy

/-- **Sanitizing does not see the case of names.** However the names of a sheet are spelled, the
standard and the extended policy keep the same of it, in the spelling it has, and say the same of
the rest. In particular it makes no difference whether a function that changes nothing but the case
of ASCII letters is applied before or after. -/
theorem sanitize_respelled_by :
    ∀ policy, policy = Policy.standard ∨ policy = Policy.extended →
      (∀ (c : Respelling) (s t : Sheet), s.Respelled c t →
        (policy.sanitize s).sheet.Respelled c (policy.sanitize t).sheet ∧
          List.Forall₂ (Diagnostic.Alike c) (policy.sanitize s).diagnostics
            (policy.sanitize t).diagnostics) ∧
        ∀ (f : String → String) (same : ∀ a, Text.lower (f a) = Text.lower a) (s : Sheet),
          (policy.sanitize (s.respell f)).sheet = (policy.sanitize s).sheet.respell f ∧
            List.Forall₂ (Diagnostic.Alike (.ofFunction f same)) (policy.sanitize s).diagnostics
              (policy.sanitize (s.respell f)).diagnostics := by
  intro policy chosen
  have blind : policy.CaseBlind := by
    rcases chosen with rfl | rfl
    · exact Policy.caseBlind_standard
    · exact Policy.caseBlind_extended
  refine ⟨fun c s t => blind.sanitize_respelled, ?_⟩
  intro f same s
  have respelled : s.Respelled (.ofFunction f same) (s.respell f) :=
    Sheet.respelled_ofFunction_iff.mpr rfl
  obtain ⟨sheets, diagnostics⟩ := blind.sanitize_respelled respelled
  exact ⟨Sheet.respelled_ofFunction_iff.mp sheets, diagnostics⟩

/-- A function that writes one name with a capital, and a sheet that holds the name. -/
theorem sanitize_respelled_by_capital :
    ∃ (f : String → String) (s : Sheet), (∀ a, Text.lower (f a) = Text.lower a) ∧
      s.respell f ≠ s ∧
      (Policy.standard.sanitize (s.respell f)).sheet =
        (Policy.standard.sanitize s).sheet.respell f := by
  have same : ∀ a, Text.lower (if a = "color" then "Color" else a) = Text.lower a := by
    intro a
    split
    next color =>
      rw [color, ← String.toList_inj, Text.lower, Text.lower, String.toList_map, String.toList_map]
      decide +kernel
    next => rfl
  have applied := (sanitize_respelled_by Policy.standard (.inl rfl)).2
    (fun a => if a = "color" then "Color" else a) same
    ⟨[.style ⟨[.token (.ident "p")], [⟨"color", [.token (.ident "red")], false⟩]⟩]⟩
  refine ⟨_, _, same, ?_, applied.1⟩
  decide +kernel

end CssSieve
