import CssSieve.Proofs.Sheet.Legible
import CssSieve.Proofs.Sheet.Recovery
import CssSieve.Proofs.Sheet.Spelling

/-!
# Reading a sheet back

What is legible is read back from the values that it is written with: declarations from the contents
of their block, rules from the list that they stand in. The values of a sheet that was read are
well-formed, so that assembly finds them again in its tokens.
-/

namespace CssSieve

/-! ## Declarations -/

theorem Declaration.mem_body {d : Declaration} {v : Value} (h : v ∈ d.body) :
    v = .token .whitespace ∨ v ∈ d.value ∨
      v = .token (.delim '!') ∨ v = .token (.ident "important") := by
  unfold body mark at h
  split at h <;> split at h <;> simp at h <;> tauto

namespace DeclarationReader

variable {name : String} {vs us rest : List Value}

/-- A semicolon and the end of the list complete the same declaration. -/
theorem run_of_ends {r : DeclarationReader} {d : Declaration} (atEnd : r.finish = some d)
    (ends : ∀ v ∈ rest.head?, v = .token .semicolon) :
    r.run rest = d :: between.run rest.tail := by
  cases rest with
  | nil =>
      rw [run, atEnd]
      rfl
  | cons v rest =>
      obtain rfl := ends v rfl
      rw [run, step_semicolon, atEnd]
      rfl

theorem run_inValue (closed : ∀ v ∈ vs, v ≠ .token .semicolon)
    (ends : ∀ v ∈ rest.head?, v = .token .semicolon) (value : List Value) :
    (inValue name value).run (vs ++ rest) =
      declare name (vs.reverse ++ value) :: between.run rest.tail := by
  induction vs generalizing value with
  | nil => exact run_of_ends rfl ends
  | cons v vs ih =>
      obtain ⟨hv, hvs⟩ := List.forall_mem_cons.mp closed
      have next : (inValue name value).step v = (inValue name (v :: value), none) :=
        stepInValue_of_ne hv value
      rw [List.cons_append, run, next, ih hvs]
      simp

theorem run_afterColon (closed : ∀ v ∈ vs, v ≠ .token .semicolon)
    (ends : ∀ v ∈ rest.head?, v = .token .semicolon) :
    (afterColon name).run (vs ++ rest) =
      declare name (vs.dropWhile Value.isWhitespace).reverse :: between.run rest.tail := by
  induction vs with
  | nil => exact run_of_ends rfl ends
  | cons v vs ih =>
      obtain ⟨hv, hvs⟩ := List.forall_mem_cons.mp closed
      cases dark : v.isWhitespace with
      | true =>
          obtain rfl := Value.isWhitespace_iff.mp dark
          exact ih hvs
      | false =>
          have next : (afterColon name).step v = (inValue name [v], none) := by
            show stepAfterColon name v = _
            unfold stepAfterColon
            split
            next => cases dark
            next => exact stepInValue_of_ne hv []
          rw [List.cons_append, run, next, List.dropWhile_cons_of_neg (by simp [dark])]
          simp [run_inValue hvs ends]

end DeclarationReader

namespace Declaration

variable {d : Declaration} {us rest : List Value}

/-- Stripping finds the value and the annotation as they were written. -/
theorem Legible.stripImportant_eq (h : d.Legible) (blank : Value.Blank us) :
    stripImportant ((d.value ++ (d.mark ++ us)).dropWhile Value.isWhitespace) =
      (d.value, d.important) := by
  cases marked : d.important with
  | false =>
      have unmarked := h.unmarked marked
      rw [mark, marked, if_neg Bool.false_ne_true, List.nil_append]
      by_cases empty : d.value = []
      · rw [empty, List.nil_append, blank.dropWhile_eq_nil]
        rfl
      · rw [Value.dropWhile_append_of_head empty h.starts, stripImportant_append_blank _ blank,
          unmarked]
  | true =>
      have written : d.value ++ (d.mark ++ us) =
          d.value ++ ([.token .whitespace]
            ++ ([.token (.delim '!'), .token (.ident "important")] ++ us)) := by
        simp [mark, marked]
      rw [written]
      by_cases empty : d.value = []
      · -- Without a value, the space before the annotation is passed over behind the colon.
        rw [empty, List.nil_append, Value.blank_space.dropWhile,
          Value.dropWhile_append_of_head (by simp) (by simp [Value.isWhitespace])]
        exact stripImportant_marked [] blank
      · rw [Value.dropWhile_append_of_head empty h.starts, ← List.append_assoc,
          stripImportant_marked _ blank, Value.trimEnd_append_blank _ Value.blank_space, h.ends]

theorem Legible.declare_body (h : d.Legible) (blank : Value.Blank us) :
    DeclarationReader.declare d.name ((d.body ++ us).dropWhile Value.isWhitespace).reverse = d := by
  have space : Value.Blank (if (d.value.head?.map Value.isWhitespace).getD false then []
      else [.token .whitespace]) := by
    split
    next => exact Value.blank_nil
    next => exact Value.blank_space
  rw [DeclarationReader.declare, List.reverse_reverse, body, List.append_assoc, List.append_assoc,
    space.dropWhile, h.stripImportant_eq blank]

theorem Legible.run_values (h : d.Legible) (blank : Value.Blank us)
    (ends : ∀ v ∈ rest.head?, v = .token .semicolon) :
    DeclarationReader.between.run (d.values ++ (us ++ rest)) =
      d :: DeclarationReader.between.run rest.tail := by
  have closed : ∀ v ∈ d.body ++ us, v ≠ .token .semicolon := by
    intro v hv
    rcases List.mem_append.mp hv with hv | hv
    · rcases mem_body hv with rfl | hv | rfl | rfl
      · simp
      · exact h.closed v hv
      · simp
      · simp
    · obtain rfl := Value.isWhitespace_iff.mp (blank v hv)
      simp
  show (DeclarationReader.afterColon d.name).run (d.body ++ (us ++ rest)) = _
  rw [← List.append_assoc, DeclarationReader.run_afterColon closed ends, h.declare_body blank]

theorem blockValues_cons_cons (d next : Declaration) (ds : List Declaration) :
    blockValues (d :: next :: ds) =
      .token .whitespace :: (d.values ++ .token .semicolon :: blockValues (next :: ds)) := by
  simp [blockValues, List.intercalate_cons_cons]

theorem listOfValues_blockValues {ds : List Declaration} (h : ∀ d ∈ ds, d.Legible) :
    listOfValues (blockValues ds) = ds := by
  induction ds with
  | nil => rfl
  | cons d ds ih =>
      obtain ⟨hd, hds⟩ := List.forall_mem_cons.mp h
      cases ds with
      | nil =>
          have block : blockValues [d] =
              .token .whitespace :: (d.values ++ ([.token .whitespace] ++ [])) := by
            simp [blockValues, List.intercalate]
          rw [block]
          exact hd.run_values Value.blank_space (by simp)
      | cons next ds =>
          rw [blockValues_cons_cons]
          show DeclarationReader.between.run (d.values ++ ([] ++ _)) = _
          rw [hd.run_values Value.blank_nil (by simp)]
          exact congrArg (d :: ·) (ih hds)

end Declaration

/-! ## Rules -/

/-- The block as a reader gives it, before anything inside is read. -/
def AtBlock.unread (block : AtBlock) : AtBlock :=
  match block.contents? with
  | none => .absent
  | some vs => .raw vs

/-- The rule as a reader gives it, with its block unread. -/
def Rule.unread : Rule → Rule
  | .style r => .style r
  | .at r => .at { r with block := r.block.unread }

theorem Rule.Fresh.unread_eq {r : Rule} (h : r.Fresh) : r.unread = r := by
  cases r with
  | style r => rfl
  | «at» r =>
      obtain ⟨name, prelude, block⟩ := r
      obtain rfl | ⟨vs, rfl⟩ := h
      · rfl
      · rfl

namespace RuleReader

variable {topLevel : Bool} {vs rest : List Value}

theorem run_inStyleRule (unbraced : ∀ v ∈ vs, v.isBraces = false) (prelude : List Value) :
    (inStyleRule prelude).run topLevel (vs ++ rest) =
      (inStyleRule (vs.reverse ++ prelude)).run topLevel rest := by
  induction vs generalizing prelude with
  | nil => rfl
  | cons v vs ih =>
      obtain ⟨hv, hvs⟩ := List.forall_mem_cons.mp unbraced
      have next : (inStyleRule prelude).step topLevel v = (inStyleRule (v :: prelude), none) :=
        stepInStyleRule_of_unbraced hv prelude
      rw [List.cons_append, run, next]
      simp [ih hvs]

theorem run_inAtRule {name : String}
    (each : ∀ v ∈ vs, v.isBraces = false ∧ v ≠ .token .semicolon) (prelude : List Value) :
    (inAtRule name prelude).run topLevel (vs ++ rest) =
      (inAtRule name (vs.reverse ++ prelude)).run topLevel rest := by
  induction vs generalizing prelude with
  | nil => rfl
  | cons v vs ih =>
      obtain ⟨⟨unbraced, closed⟩, hvs⟩ := List.forall_mem_cons.mp each
      have next : (inAtRule name prelude).step topLevel v =
          (inAtRule name (v :: prelude), none) :=
        stepInAtRule_of_open unbraced closed name prelude
      rw [List.cons_append, run, next]
      simp [ih hvs]

end RuleReader

namespace Rule

variable {topLevel : Bool} {rest : List Value}

theorem run_values_style {r : StyleRule} (h : r.Legible topLevel) :
    RuleReader.between.run topLevel (r.values ++ rest) =
      .style r :: RuleReader.between.run topLevel rest := by
  obtain ⟨prelude, ds⟩ := r
  have trimmed : Value.trim prelude = prelude := h.trimmed
  have read : Declaration.listOfValues (Declaration.blockValues ds) = ds :=
    Declaration.listOfValues_blockValues h.declarations
  cases prelude with
  | nil =>
      show .style ⟨[], Declaration.listOfValues (Declaration.blockValues ds)⟩
        :: RuleReader.between.run topLevel rest = _
      rw [read]
  | cons v vs =>
      obtain ⟨hv, hvs⟩ := List.forall_mem_cons.mp h.unbraced
      have first : RuleReader.between.step topLevel v = (.inStyleRule [v], none) := by
        show RuleReader.stepBetween topLevel v = _
        rw [RuleReader.stepBetween_of_starts (h.starts v rfl),
          RuleReader.stepInStyleRule_of_unbraced hv]
      have written : StyleRule.values ⟨v :: vs, ds⟩ ++ rest = v :: (vs
          ++ .token .whitespace :: .block '\x7b' (Declaration.blockValues ds) :: rest) := by
        simp [StyleRule.values]
      have completed : RuleReader.styleRule (.token .whitespace :: (vs.reverse ++ [v]))
          (Declaration.blockValues ds) = .style ⟨v :: vs, ds⟩ := by
        have prelude : (Value.token .whitespace :: (vs.reverse ++ [v])).reverse =
            (v :: vs) ++ [.token .whitespace] := by simp
        rw [RuleReader.styleRule, read, prelude, Value.trim_append_blank _ Value.blank_space,
          trimmed]
      rw [written, RuleReader.run, first, RuleReader.run_inStyleRule hvs]
      show RuleReader.styleRule _ _ :: RuleReader.between.run topLevel rest = _
      rw [completed]

theorem run_values_at {r : AtRule} (h : r.Legible) :
    RuleReader.between.run topLevel (r.values ++ rest) =
      (Rule.at r).unread :: RuleReader.between.run topLevel rest := by
  obtain ⟨name, prelude, block⟩ := r
  have trimmed : Value.trim prelude = prelude := h.trimmed
  -- The space is written before the prelude if there is one; trimming makes nothing of it.
  obtain ⟨space, blank, written⟩ : ∃ space, Value.Blank space ∧
      (if prelude.isEmpty then [] else .token .whitespace :: prelude) = space ++ prelude := by
    cases prelude with
    | nil => exact ⟨[], Value.blank_nil, rfl⟩
    | cons v vs => exact ⟨[.token .whitespace], Value.blank_space, rfl⟩
  have each : ∀ v ∈ space ++ prelude, v.isBraces = false ∧ v ≠ .token .semicolon := by
    intro v hv
    rcases List.mem_append.mp hv with hv | hv
    · obtain rfl := Value.isWhitespace_iff.mp (blank v hv)
      simp [Value.isBraces]
    · exact ⟨h.unbraced v hv, h.closed v hv⟩
  have completed (us : List Value) (behind : Value.Blank us) (block : AtBlock) :
      RuleReader.atRule name (us ++ (space ++ prelude).reverse) block =
        .at ⟨name, prelude, block⟩ := by
    rw [RuleReader.atRule, List.reverse_append, List.reverse_reverse,
      Value.trim_append_blank _ behind.reverse, Value.trim_blank_append blank, trimmed]
  rw [AtRule.values, written, List.cons_append]
  show RuleReader.run topLevel (.inAtRule name [])
    ((space ++ prelude ++ AtBlock.enclose block.contents?) ++ rest) = _
  rw [List.append_assoc, RuleReader.run_inAtRule each, List.append_nil, unread, AtBlock.unread]
  cases contents : block.contents? with
  | none =>
      show RuleReader.atRule _ _ _ :: RuleReader.between.run topLevel rest = _
      rw [← completed [] Value.blank_nil]
      rfl
  | some vs =>
      show RuleReader.atRule _ _ _ :: RuleReader.between.run topLevel rest = _
      rw [← completed [.token .whitespace] Value.blank_space]
      rfl

theorem Legible.run_values {r : Rule} (h : r.Legible topLevel) :
    RuleReader.between.run topLevel (r.values ++ rest) =
      r.unread :: RuleReader.between.run topLevel rest := by
  cases r with
  | style r => exact run_values_style h
  | «at» r => exact run_values_at h

end Rule

/-! ## Written values are well-formed -/

open Value (Fits inBraces)

theorem Declaration.fits_blockValues {ds : List Declaration}
    (h : ∀ d ∈ ds, ∀ v ∈ d.value, Fits inBraces v) : ∀ v ∈ blockValues ds, Fits inBraces v := by
  have values : ∀ d ∈ ds, ∀ v ∈ Value.token .whitespace :: d.values, Fits inBraces v := by
    intro d hd
    simp only [Declaration.values, List.forall_mem_cons]
    refine ⟨Value.fits_token rfl, Value.fits_token rfl, Value.fits_token rfl, ?_⟩
    intro v hv
    rcases mem_body hv with rfl | hv | rfl | rfl
    · exact Value.fits_token rfl
    · exact h d hd v hv
    · exact Value.fits_token rfl
    · exact Value.fits_token rfl
  induction ds with
  | nil => simpa [blockValues, List.intercalate] using Value.fits_token rfl
  | cons d ds ih =>
      obtain ⟨first, others⟩ := List.forall_mem_cons.mp values
      cases ds with
      | nil =>
          have space : ∀ v ∈ [Value.token .whitespace], Fits inBraces v := by
            simpa using Value.fits_token rfl
          have block : blockValues [d] = .token .whitespace :: d.values ++ [.token .whitespace] := by
            simp [blockValues, List.intercalate]
          rw [block]
          exact List.forall_mem_append.mpr ⟨first, space⟩
      | cons next ds =>
          have behind := ih (fun d hd => h d (List.mem_cons_of_mem _ hd)) others
          rw [blockValues_cons_cons, ← List.cons_append]
          exact List.forall_mem_append.mpr
            ⟨first, List.forall_mem_cons.mpr ⟨Value.fits_token rfl, behind⟩⟩

namespace Rule

variable {gs : List OpenGroup}

theorem fits_values_style {r : StyleRule} (prelude : ∀ v ∈ r.prelude, Fits gs v)
    (contents : ∀ d ∈ r.declarations, ∀ v ∈ d.value, Fits inBraces v) :
    ∀ v ∈ r.values, Fits gs v := by
  have space : Fits gs (.token .whitespace) := Value.fits_token rfl
  have braces : Fits gs (.block '\x7b' (Declaration.blockValues r.declarations)) :=
    Value.fits_braces_iff.mpr (Declaration.fits_blockValues contents)
  exact List.forall_mem_append.mpr ⟨prelude, by simp [space, braces]⟩

theorem fits_values_at {r : AtRule} (prelude : ∀ v ∈ r.prelude, Fits gs v)
    (contents : ∀ vs ∈ r.block.contents?, ∀ v ∈ vs, Fits inBraces v) :
    ∀ v ∈ r.values, Fits gs v := by
  obtain ⟨name, before, block⟩ := r
  refine List.forall_mem_cons.mpr ⟨Value.fits_token rfl, List.forall_mem_append.mpr ⟨?_, ?_⟩⟩
  · split
    next => simp
    next => exact List.forall_mem_cons.mpr ⟨Value.fits_token rfl, prelude⟩
  · cases found : block.contents? with
    | none => simpa [AtBlock.enclose] using Value.fits_token rfl
    | some vs =>
        have space : Fits gs (.token .whitespace) := Value.fits_token rfl
        have braces : Fits gs (.block '\x7b' vs) := Value.fits_braces_iff.mpr (contents vs found)
        simp [AtBlock.enclose, space, braces]

theorem fits_values {topLevel : Bool} {r : Rule}
    (h : RuleReader.ReadFrom topLevel (Fits gs) r) : ∀ v ∈ r.values, Fits gs v := by
  cases h with
  | @style prelude contents collected block =>
      have before : ∀ v ∈ Value.trim prelude.reverse, Fits gs v :=
        fun v hv => (collected.each v (RuleReader.mem_of_mem_trim_reverse hv)).1
      refine fits_values_style before fun d hd => ?_
      have inside := Value.fits_braces_iff.mp block
      exact (Declaration.readFrom_of_mem_listOfValues inside d hd).forall_mem_value
  | @atAbsent name prelude collected =>
      have before : ∀ v ∈ Value.trim prelude.reverse, Fits gs v :=
        fun v hv => (collected v (RuleReader.mem_of_mem_trim_reverse hv)).1
      exact fits_values_at before (by simp [AtBlock.contents?])
  | @atBlock name prelude contents collected block =>
      have before : ∀ v ∈ Value.trim prelude.reverse, Fits gs v :=
        fun v hv => (collected v (RuleReader.mem_of_mem_trim_reverse hv)).1
      have inside := Value.fits_braces_iff.mp block
      exact fits_values_at before (by simpa [AtBlock.contents?] using inside)

end Rule

/-! ## Sheets -/

namespace Sheet

theorem ofValues_values {s : Sheet} (h : ∀ r ∈ s.rules, r.Legible true) :
    (ofValues s.values).rules = s.rules.map Rule.unread := by
  obtain ⟨rules⟩ := s
  show RuleReader.between.run true (rules.flatMap (·.values ++ [.token .whitespace])) = _
  induction rules with
  | nil => rfl
  | cons r rs ih =>
      obtain ⟨hr, hrs⟩ := List.forall_mem_cons.mp h
      rw [List.flatMap_cons, List.append_assoc, hr.run_values]
      exact congrArg (r.unread :: ·) (ih hrs)

/-- **A sheet that was read is read back from what it is written with.** Those tokens are the ones
of its rules with white space behind every rule, and its text is theirs with a line feed there. -/
theorem ofTokens_tokens (ts : List Token) :
    let s := ofTokens ts
    ofTokens s.tokens = s ∧
      s.tokens = s.rules.flatMap (fun r => Value.tokensAll r.values ++ [.whitespace]) ∧
      s.css = String.join
        (s.rules.map fun r => String.join ((Value.tokensAll r.values).map Token.css) ++ "\n") := by
  intro s
  refine ⟨?_, s.tokens_eq_flatMap, s.css_eq_join_tokens⟩
  have fits : ∀ v ∈ Value.ofTokens ts, Fits [] v :=
    fun v hv => ⟨Value.wellFormed_of_mem_ofTokens v hv, by simp [Value.StaysIn]⟩
  have read : ∀ r ∈ s.rules, RuleReader.ReadFrom true (Fits []) r :=
    RuleReader.readFrom_of_mem_between fits
  have formed : ∀ v ∈ s.values, v.WellFormed := by
    intro v hv
    obtain ⟨r, hr, hv⟩ := List.mem_flatMap.mp hv
    rcases List.mem_append.mp hv with hv | hv
    · exact (Rule.fits_values (read r hr) v hv).1
    · obtain rfl := List.mem_singleton.mp hv
      have space : Fits [] (.token .whitespace) := Value.fits_token rfl
      exact space.1
  have assembled : Value.ofTokens s.tokens = s.values := Value.ofTokens_tokensAll formed
  have unread : s.rules.map Rule.unread = s.rules := by
    rw [List.map_congr_left fun r hr => (read r hr).fresh.unread_eq, List.map_id']
  have again : (ofValues s.values).rules = s.rules := by
    rw [ofValues_values fun r hr => (read r hr).legible, unread]
  show ofValues (Value.ofTokens s.tokens) = s
  rw [assembled]
  exact congrArg Sheet.mk again

end Sheet

end CssSieve
