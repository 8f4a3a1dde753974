import CssSieve.Proofs.Policy.Acceptance
import CssSieve.Proofs.Sheet.RoundTrip

/-!
# Importance is taken once

An annotation of importance at the end of a value becomes a flag when the declaration is read, or
else when it is checked. `StrippedOnce` says what is left of a value when its last annotation is
taken away, by the form of the value alone; that is what reading does and what checking does
(`strippedOnce_iff`). A declaration that was read has no annotation left to take or has its flag
set, so it is checked as the declaration with the whole value and no flag is.
-/

namespace CssSieve

open Value (Blank trimEnd)

/-- An annotation: the delimiter `!` and the word `important` in any case, with the white space that
follows each. -/
inductive Marking : List Value → Prop where
  | intro {word : String} {gap rest : List Value} (gap_blank : Blank gap)
      (spelled : Text.caseless word "important") (rest_blank : Blank rest) :
      Marking (.token (.delim '!') :: (gap ++ .token (.ident word) :: rest))

/-- What is left of a value without its last annotation, and whether it had one. Earlier annotations
stay. White space at the end goes in either case. -/
inductive StrippedOnce : List Value → List Value → Bool → Prop where
  | marked {front us : List Value} (marking : Marking us) :
      StrippedOnce (front ++ us) (trimEnd front) true
  | unmarked {value : List Value}
      (plain : ∀ front us, value = front ++ us → ¬Marking us) :
      StrippedOnce value (trimEnd value) false

variable {value front us : List Value}

/-- What `dropWhile` takes away is white space. -/
theorem Value.exists_blank_append (vs : List Value) :
    ∃ us, Blank us ∧ us ++ vs.dropWhile isWhitespace = vs :=
  ⟨vs.takeWhile isWhitespace, fun _ => List.mem_takeWhile_imp, List.takeWhile_append_dropWhile⟩

theorem Marking.beforeAnnotation?_eq (marking : Marking us) (front : List Value) :
    beforeAnnotation? ((front ++ us).reverse.dropWhile Value.isWhitespace) =
      some front.reverse := by
  obtain @⟨word, gap, rest, gap_blank, spelled, rest_blank⟩ := marking
  have backwards : (front ++ .token (.delim '!') :: (gap ++ .token (.ident word) :: rest)).reverse =
      rest.reverse ++ .token (.ident word) ::
        (gap.reverse ++ .token (.delim '!') :: front.reverse) := by simp
  have worded : (Value.token (.ident word)).isImportantWord = true := spelled
  have dark : ∀ t : Token, t ≠ .whitespace → ¬(Value.token t).isWhitespace = true := by
    intro t solid
    simpa [Value.isWhitespace_iff] using solid
  rw [backwards, rest_blank.reverse.dropWhile, List.dropWhile_cons_of_neg (dark _ (by simp)),
    beforeAnnotation?, if_pos worded, gap_blank.reverse.dropWhile,
    List.dropWhile_cons_of_neg (dark _ (by simp))]
  rfl

theorem Value.eq_of_isImportantWord {v : Value} (h : v.isImportantWord = true) :
    ∃ word, v = .token (.ident word) ∧ Text.caseless word "important" := by
  unfold isImportantWord at h
  split at h
  next word => exact ⟨word, rfl, h⟩
  next => cases h

theorem Value.eq_of_isBang {v : Value} (h : v.isBang = true) : v = .token (.delim '!') := by
  unfold isBang at h
  split at h
  next c => rw [eq_of_beq h]
  next => cases h

/-- Read backwards, an annotation is the word and then the delimiter. -/
theorem eq_of_beforeAnnotation? {backwards back : List Value}
    (found : beforeAnnotation? backwards = some back) :
    ∃ word gap, backwards = .token (.ident word) :: (gap ++ .token (.delim '!') :: back) ∧
      Text.caseless word "important" ∧ Blank gap := by
  cases backwards with
  | nil => cases found
  | cons last before =>
      rw [beforeAnnotation?] at found
      split at found
      next worded =>
        obtain ⟨word, rfl, spelled⟩ := Value.eq_of_isImportantWord worded
        split at found
        next => cases found
        next bang front behind_gap =>
          split at found
          next banged =>
            cases found
            obtain rfl := Value.eq_of_isBang banged
            obtain ⟨gap, gap_blank, parts⟩ := Value.exists_blank_append before
            rw [behind_gap] at parts
            exact ⟨word, gap, by rw [parts], spelled, gap_blank⟩
          next => cases found
      next => cases found

theorem exists_marking {back : List Value}
    (found : beforeAnnotation? (value.reverse.dropWhile Value.isWhitespace) = some back) :
    ∃ us, value = back.reverse ++ us ∧ Marking us := by
  obtain ⟨word, gap, parts, spelled, gap_blank⟩ := eq_of_beforeAnnotation? found
  obtain ⟨rest, rest_blank, whole⟩ := Value.exists_blank_append value.reverse
  refine ⟨_, ?_, .intro gap_blank.reverse spelled rest_blank.reverse⟩
  rw [← List.reverse_inj, ← whole, parts]
  simp

theorem stripImportant_append_marking (marking : Marking us) (front : List Value) :
    stripImportant (front ++ us) = (trimEnd front, true) := by
  rw [stripImportant, marking.beforeAnnotation?_eq front, trimEnd]

theorem stripImportant_of_no_marking
    (plain : ∀ front us, value = front ++ us → ¬Marking us) :
    stripImportant value = (trimEnd value, false) := by
  rw [stripImportant]
  cases found : beforeAnnotation? (value.reverse.dropWhile Value.isWhitespace) with
  | none => rfl
  | some back =>
      obtain ⟨us, parts, marking⟩ := exists_marking found
      exact absurd marking (plain _ us parts)

/-- Stripping a value takes its last annotation away. -/
theorem strippedOnce_iff {w : List Value} {marked : Bool} :
    StrippedOnce value w marked ↔ stripImportant value = (w, marked) := by
  constructor
  · intro stripped
    cases stripped with
    | marked marking => exact stripImportant_append_marking marking _
    | unmarked plain => exact stripImportant_of_no_marking plain
  · intro stripped
    by_cases annotated : ∃ front us, value = front ++ us ∧ Marking us
    · obtain ⟨front, us, rfl, marking⟩ := annotated
      rw [stripImportant_append_marking marking] at stripped
      cases stripped
      exact .marked marking
    · have plain : ∀ front us, value = front ++ us → ¬Marking us :=
        fun front us parts marking => annotated ⟨front, us, parts, marking⟩
      rw [stripImportant_of_no_marking plain] at stripped
      cases stripped
      exact .unmarked plain

/-! ## Reading -/

namespace DeclarationReader

theorem run_afterName_blank {us : List Value} (blank : Blank us) (name : String)
    (rest : List Value) : (afterName name).run (us ++ rest) = (afterName name).run rest := by
  induction us with
  | nil => rfl
  | cons v us ih =>
      obtain ⟨hv, hus⟩ := List.forall_mem_cons.mp blank
      obtain rfl := Value.isWhitespace_iff.mp hv
      exact ih hus

end DeclarationReader

/-- A name, a colon and a value are read as one declaration, with the value stripped once. -/
theorem Declaration.listOfValues_named {name : String} {v us ws : List Value}
    (closed : ∀ x ∈ v, x ≠ .token .semicolon) (starts : ∀ x ∈ v.head?, x.isWhitespace = false)
    (before : Blank us) (behind : Blank ws) :
    listOfValues (.token (.ident name) :: (us ++ .token .colon :: (ws ++ v))) =
      [⟨name, (stripImportant v).1, (stripImportant v).2⟩] := by
  have no_semicolon : ∀ x ∈ ws ++ v, x ≠ .token .semicolon := by
    intro x hx
    rcases List.mem_append.mp hx with hx | hx
    · obtain rfl := Value.isWhitespace_iff.mp (behind x hx)
      simp
    · exact closed x hx
  have value : (DeclarationReader.afterColon name).run (ws ++ v ++ []) = _ :=
    DeclarationReader.run_afterColon no_semicolon (by simp)
  rw [List.append_nil, behind.dropWhile, Value.dropWhile_of_head starts] at value
  calc listOfValues (.token (.ident name) :: (us ++ .token .colon :: (ws ++ v)))
    _ = (DeclarationReader.afterName name).run (us ++ .token .colon :: (ws ++ v)) := rfl
    _ = (DeclarationReader.afterName name).run (.token .colon :: (ws ++ v)) :=
        DeclarationReader.run_afterName_blank before name _
    _ = (DeclarationReader.afterColon name).run (ws ++ v) := rfl
    _ = [DeclarationReader.declare name v.reverse] := value
    _ = _ := by rw [DeclarationReader.declare, List.reverse_reverse]

/-! ## Checking -/

namespace DeclarationPolicy

variable {policy : DeclarationPolicy} {grammar : Grammar}

/-- A declaration of a known property is judged by its value without an annotation. -/
theorem check_of_known (index : Nat) {d : Declaration} (plain : ¬d.isCustomProperty)
    (known : policy.registry.get? d.name = some grammar) :
    policy.check index d =
      if grammar.matchesAll (annotated d).value || policy.wide.matchesAll (annotated d).value then
        .keep (annotated d)
      else
        .drop (invalidValue index (annotated d))
          (faultNotes d.name (grammar.faults (annotated d).value)) := by
  rw [check, if_neg plain, known]
  simp only [annotated_name]

/-- **Importance is taken once.** A declaration that was read and one that is made of the whole
value by hand are checked alike: both are judged by the value without its last annotation, if it has
any. Further annotations are part of the value. -/
theorem check_read_eq_check_built {name : String} {v us ws : List Value} (index : Nat)
    (plain : ¬isCustomPropertyName name) (known : policy.registry.get? name = some grammar)
    (closed : ∀ x ∈ v, x ≠ .token .semicolon) (starts : ∀ x ∈ v.head?, x.isWhitespace = false)
    (before : Blank us) (behind : Blank ws) :
    ∃ w marked, StrippedOnce v w marked ∧
      Declaration.listOfValues (.token (.ident name) :: (us ++ .token .colon :: (ws ++ v))) =
        [⟨name, w, marked⟩] ∧
      policy.check index ⟨name, w, marked⟩ = policy.check index ⟨name, v, false⟩ ∧
      policy.check index ⟨name, v, false⟩ =
        if grammar.matchesAll w || policy.wide.matchesAll w then .keep ⟨name, w, marked⟩
        else
          .drop (invalidValue index ⟨name, w, marked⟩) (faultNotes name (grammar.faults w)) := by
  have stripped : annotated ⟨name, v, false⟩ =
      ⟨name, (stripImportant v).1, (stripImportant v).2⟩ := by simp [annotated]
  have built := check_of_known index (d := ⟨name, v, false⟩) plain known
  have read := check_of_known index (d := ⟨name, (stripImportant v).1, (stripImportant v).2⟩)
    plain known
  rw [stripped] at built
  rw [annotated_stripped] at read
  exact ⟨_, _, strippedOnce_iff.mpr rfl, Declaration.listOfValues_named closed starts before behind,
    read.trans built.symm, built⟩

/-- Of two annotations one is left, and the declaration is dropped on either way. -/
theorem check_read_eq_check_built_twice_marked :
    let policy : DeclarationPolicy := ⟨.ofList [("color", .word "red")], .word "inherit"⟩
    let v : List Value :=
      [.token (.ident "red"), .token (.delim '!'), .token (.ident "important"),
        .token .whitespace, .token (.delim '!'), .token .whitespace, .token (.ident "important")]
    ∃ d, Declaration.listOfValues (.token (.ident "color") :: .token .colon :: v) = [d] ∧
      policy.check 0 d = policy.check 0 ⟨"color", v, false⟩ ∧
        (policy.check 0 ⟨"color", v, false⟩).kept = none := by
  intro policy v
  have known : policy.registry.get? "color" = some (.word "red") :=
    (NameTable.get?_insert ∅ "color" "color" (Grammar.word "red")).trans (if_pos rfl)
  obtain ⟨w, marked, -, read, alike, -⟩ :=
    check_read_eq_check_built (v := v) 0 (by decide +kernel) known (by decide +kernel)
      (by decide +kernel) Value.blank_nil Value.blank_nil
  exact ⟨⟨"color", w, marked⟩, read, alike, by decide +kernel⟩

end DeclarationPolicy

end CssSieve
