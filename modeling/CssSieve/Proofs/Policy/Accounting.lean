import CssSieve.Proofs.Diagnostic.Reports
import CssSieve.Proofs.Policy.Survival

/-!
# The diagnostics account for what is dropped

A place leads by indices from the rules of a sheet to one of its nodes (`entryAt?`). A node is
dropped if the rules around it are all kept and it is not; what stands in a rule that is dropped
does not count. Main result: the diagnostics of a sanitized sheet are one report for each place of a
dropped node, in document order, and there are as many errors as nodes are missing from the output.
The indices are those of the lists that are checked, so an index in a block that was unread is one
of the list that the block is read as.
-/

namespace CssSieve

namespace DeclarationPolicy

variable {policy : DeclarationPolicy}

theorem note_of_mem_faultNotes (index : Nat) {d : Declaration} {faults : Furthest Fault}
    {note : Diagnostic} (h : note ∈ faultNotes d.name faults) :
    note.severity = .note ∧ note.location.InValueOf (invalidValue index d).location := by
  obtain ⟨fault, -, rfl⟩ := List.mem_map.mp h
  exact ⟨rfl, Location.InValueOf.here⟩

/-- What is said of a declaration whose value matches nothing. -/
def misfit (index : Nat) (d : Declaration) (faults : Furthest Fault) : Report where
  error := invalidValue index d
  notes := faultNotes d.name faults
  isError := rfl
  areNotes := fun _ h => (note_of_mem_faultNotes index h).1
  onValue := fun _ h => ⟨rfl, (note_of_mem_faultNotes index h).2⟩

/-- What is said of a declaration whose property is not known. -/
def unknown (index : Nat) (name : String) : Report where
  error := unknownProperty index name
  notes := []
  isError := rfl
  areNotes := by simp
  onValue := by simp

theorem exists_report_of_not_accepts {d : Declaration} (h : ¬policy.Accepts d) (index : Nat) :
    ∃ r : Report, (policy.check index d).diagnostics = r.diagnostics ∧
      r.place = .declaration index d.name := by
  obtain ⟨custom, refused⟩ := not_or.mp h
  rw [check, if_neg custom]
  cases known : policy.registry.get? d.name with
  | none => exact ⟨unknown index d.name, rfl, rfl⟩
  | some grammar =>
      have misfits := fun fits => refused ⟨grammar, known, fits⟩
      rw [← Bool.or_eq_true] at misfits
      refine ⟨misfit index (annotated d) (grammar.faults (annotated d).value), ?_, ?_⟩
      · simp only [if_neg misfits]
        rfl
      · rw [← annotated_name d]
        rfl

/-- A declaration that is not accepted leaves one report at its index. -/
theorem accounts_check (index : Nat) (d : Declaration) :
    Accounts (policy.check index d).diagnostics
      fun place => place = .declaration index d.name ∧ ¬policy.Accepts d := by
  by_cases accepted : policy.Accepts d
  · rw [check_of_accepts accepted, Checked.diagnostics_keep]
    exact Accounts.nothing fun place dropped => dropped.2 accepted
  · obtain ⟨r, said, place_eq⟩ := exists_report_of_not_accepts accepted index
    rw [said]
    refine (Accounts.single r).congr ?_
    intro place
    simp [place_eq, accepted]

theorem errorCount_checkAll (ds : List Declaration) :
    Diagnostic.errorCount (policy.checkAll ds).diagnostics = ds.countP (¬policy.Accepts ·) := by
  have member (d : Declaration) (index : Nat) :
      Diagnostic.errorCount (policy.check index d).diagnostics =
        [d].countP (¬policy.Accepts ·) := by
    by_cases accepted : policy.Accepts d
    · rw [check_of_accepts accepted, List.countP_singleton, if_neg (by simp [accepted])]
      rfl
    · obtain ⟨r, said, -⟩ := exists_report_of_not_accepts accepted index
      rw [said, r.errorCount_diagnostics, List.countP_singleton, if_pos (by simp [accepted])]
  rw [checkAll, checkFrom_eq_each, Checked.errorCount_each fun d _ => member d,
    List.flatMap_singleton']

theorem accounts_checkAll (ds : List Declaration) :
    Accounts (policy.checkAll ds).diagnostics fun place =>
      ∃ i d, ds[i]? = some d ∧ place = .declaration i d.name ∧ ¬policy.Accepts d := by
  rw [checkAll, checkFrom_eq_each]
  refine (Accounts.each (fun d _ index => accounts_check index d) ?_ 0).congr ?_
  · rintro index d place ⟨rfl, -⟩
    rfl
  · simp

end DeclarationPolicy

namespace Policy

variable {policy : Policy} {scope : Scope} {rule : Rule}

/-! ## Places -/

/-- The node at a place, with the rules around it. -/
def entryAt? (policy : Policy) : Location → Contents → Option Entry
  | .rule index, .rules scope rules => rules[index]?.map fun r => ⟨[], .rule scope r⟩
  | .declaration index property, .declarations own ds =>
      (ds[index]?.filter (·.name == property)).map fun d => ⟨[], .declaration own d⟩
  | .nested index place, .rules scope rules =>
      rules[index]?.bind fun r => (policy.contents? scope r).bind fun held =>
        (policy.entryAt? place held).map (·.under (.rule scope r))
  | _, _ => none

/-- All rules around a node are kept. -/
def Reached (policy : Policy) (e : Entry) : Prop := ∀ n ∈ e.enclosing, policy.Valid n

/-- All rules around a node are kept, and it is not. -/
def Drops (policy : Policy) (e : Entry) : Prop := policy.Reached e ∧ ¬policy.Valid e.node

instance (policy : Policy) : DecidablePred policy.Reached := fun e =>
  inferInstanceAs (Decidable (∀ n ∈ e.enclosing, policy.Valid n))

instance (policy : Policy) : DecidablePred policy.Drops := fun e =>
  inferInstanceAs (Decidable (policy.Reached e ∧ ¬policy.Valid e.node))

/-- The place is that of a node that is dropped. -/
def DropsAt (policy : Policy) (held : Contents) (place : Location) : Prop :=
  ∃ e ∈ policy.entryAt? place held, policy.Drops e

/-- The place is that of a rule that is dropped, or of a node dropped inside it. -/
def DropsIn (policy : Policy) (scope : Scope) (index : Nat) (rule : Rule) (place : Location) :
    Prop :=
  place = .rule index ∧ ¬policy.Admits scope rule ∨
    policy.Admits scope rule ∧ ∃ held ∈ policy.contents? scope rule,
      ∃ inner, place = .nested index inner ∧ policy.DropsAt held inner

theorem drops_under {outer : Node} {e : Entry} :
    policy.Drops (e.under outer) ↔ policy.Valid outer ∧ policy.Drops e := by
  simp [Drops, Reached, Entry.under, and_assoc]

theorem dropsAt_declarations {own : DeclarationPolicy} {ds : List Declaration}
    {place : Location} :
    policy.DropsAt (.declarations own ds) place ↔
      ∃ i d, ds[i]? = some d ∧ place = .declaration i d.name ∧ ¬own.Accepts d := by
  have dropped (d : Declaration) :
      policy.Drops ⟨[], .declaration own d⟩ ↔ ¬own.Accepts d := by
    simp [Drops, Reached, Valid]
  constructor
  · rintro ⟨e, found, drops⟩
    cases place with
    | declaration i property =>
        obtain ⟨d, named, rfl⟩ := Option.map_eq_some_iff.mp found
        obtain ⟨hd, same⟩ := Option.filter_eq_some_iff.mp named
        rw [← beq_iff_eq.mp same]
        exact ⟨i, d, hd, rfl, (dropped d).mp drops⟩
    | rule | value | nested => cases found
  · rintro ⟨i, d, hd, rfl, refused⟩
    refine ⟨⟨[], .declaration own d⟩, ?_, (dropped d).mpr refused⟩
    simp [entryAt?, hd]

theorem dropsAt_rules {rules : List Rule} {place : Location} :
    policy.DropsAt (.rules scope rules) place ↔
      ∃ i r, rules[i]? = some r ∧ policy.DropsIn scope i r place := by
  have dropped (r : Rule) : policy.Drops ⟨[], .rule scope r⟩ ↔ ¬policy.Admits scope r := by
    simp [Drops, Reached, Valid]
  constructor
  · rintro ⟨e, found, drops⟩
    cases place with
    | rule i =>
        obtain ⟨r, hr, rfl⟩ := Option.map_eq_some_iff.mp found
        exact ⟨i, r, hr, Or.inl ⟨rfl, (dropped r).mp drops⟩⟩
    | nested i inner =>
        obtain ⟨r, hr, found⟩ := Option.bind_eq_some_iff.mp found
        obtain ⟨held, opened, found⟩ := Option.bind_eq_some_iff.mp found
        obtain ⟨e, he, rfl⟩ := Option.map_eq_some_iff.mp found
        obtain ⟨admitted, drops⟩ := drops_under.mp drops
        exact ⟨i, r, hr, Or.inr ⟨admitted, held, opened, inner, rfl, e, he, drops⟩⟩
    | declaration | value => cases found
  · rintro ⟨i, r, hr, ⟨rfl, refused⟩ | ⟨admitted, held, opened, inner, rfl, e, he, drops⟩⟩
    · refine ⟨⟨[], .rule scope r⟩, ?_, (dropped r).mpr refused⟩
      simp [entryAt?, hr]
    · have opened : policy.contents? scope r = some held := opened
      have he : policy.entryAt? inner held = some e := he
      refine ⟨e.under (.rule scope r), ?_, drops_under.mpr ⟨admitted, drops⟩⟩
      simp [entryAt?, hr, opened, he]

/-! ## What is said of a rule -/

theorem dropsIn_of_opened (admitted : policy.Admits scope rule) {held : Contents}
    (opened : policy.contents? scope rule = some held) {index : Nat} {place : Location} :
    policy.DropsIn scope index rule place ↔
      ∃ inner, place = .nested index inner ∧ policy.DropsAt held inner := by
  simp [DropsIn, admitted, opened]

/-- What is said of a rule, from what is said of what it holds. -/
theorem accounts_checkIn (standard : policy.Standard)
    (inside : ∀ inner rules, policy.contents? scope rule = some (.rules inner rules) →
      Accounts (policy.checkAllIn inner rules).diagnostics (policy.DropsAt (.rules inner rules)))
    (index : Nat) :
    Accounts (policy.checkIn scope index rule).diagnostics (policy.DropsIn scope index rule) := by
  rcases policy.refused_or_opened scope rule with
    refused | ⟨own, ds, admitted, opened⟩ | ⟨inner, rules, admitted, opened⟩
  · obtain ⟨why, dropped, isError, place_eq⟩ := exists_drop_of_not_admits standard refused index
    let r : Report := ⟨why, [], isError, by simp, by simp⟩
    have whole : (policy.checkIn scope index rule).diagnostics = r.diagnostics := by
      rw [dropped, Checked.diagnostics_drop]
      rfl
    rw [whole]
    refine (Accounts.single r).congr ?_
    intro place
    simp [DropsIn, refused, r, Report.place, place_eq]
  · have said : Accounts (own.checkAll ds).diagnostics (policy.DropsAt (.declarations own ds)) :=
      (own.accounts_checkAll ds).congr fun _ => dropsAt_declarations.symm
    rw [checkIn_of_declarations admitted opened, Checked.diagnostics_inside]
    exact (said.nestedIn index).congr fun _ => (dropsIn_of_opened admitted opened).symm
  · have said := inside inner rules opened
    rw [checkIn_of_rules admitted opened, Checked.diagnostics_inside]
    exact (said.nestedIn index).congr fun _ => (dropsIn_of_opened admitted opened).symm

theorem head?_path_of_dropsIn {index : Nat} {place : Location}
    (h : policy.DropsIn scope index rule place) : place.path.head? = some index := by
  rcases h with ⟨rfl, -⟩ | ⟨-, held, -, inner, rfl, -⟩ <;> rfl

theorem accounts_checkAllIn_of_members {rules : List Rule}
    (member : ∀ r ∈ rules, ∀ index,
      Accounts (policy.checkIn scope index r).diagnostics (policy.DropsIn scope index r)) :
    Accounts (policy.checkAllIn scope rules).diagnostics
      (policy.DropsAt (.rules scope rules)) := by
  refine (Accounts.each member (fun _ _ _ h => head?_path_of_dropsIn h) 0).congr ?_
  intro place
  rw [dropsAt_rules]
  simp only [Nat.zero_add]

theorem accounts_checkAllIn (standard : policy.Standard) (scope : Scope) (rules : List Rule) :
    Accounts (policy.checkAllIn scope rules).diagnostics
      (policy.DropsAt (.rules scope rules)) := by
  have member : ∀ scope rule index,
      Accounts (policy.checkIn scope index rule).diagnostics
        (policy.DropsIn scope index rule) := by
    intro scope rule
    induction scope, rule using induction_on_contents policy with
    | step scope rule ih =>
        apply accounts_checkIn standard
        intro inner rules held
        exact accounts_checkAllIn_of_members (ih inner rules held)
  exact accounts_checkAllIn_of_members fun r _ => member scope r

/-! ## How much is said -/

theorem countP_drops_outlineOf_of_not_admits (refused : ¬policy.Admits scope rule) :
    (policy.outlineOf scope rule).countP policy.Drops = 1 := by
  have invalid : ¬policy.Valid (.rule scope rule) := refused
  have itself : policy.Drops ⟨[], .rule scope rule⟩ := ⟨by simp [Reached], refused⟩
  have nothing_inside (es : List Entry) :
      (es.map (·.under (.rule scope rule))).countP policy.Drops = 0 := by
    simp [List.countP_eq_zero, drops_under, invalid]
  rw [outlineOf, List.countP_cons_of_pos (by simpa using itself)]
  split
  next => rfl
  next own ds held =>
    have := nothing_inside (ds.map fun d => ⟨[], .declaration own d⟩)
    simp only [List.map_map] at this
    exact congrArg (· + 1) this
  next inner rules held => rw [nothing_inside]

theorem countP_drops_outlineOf_of_declarations (admitted : policy.Admits scope rule)
    {own : DeclarationPolicy} {ds : List Declaration}
    (held : policy.contents? scope rule = some (.declarations own ds)) :
    (policy.outlineOf scope rule).countP policy.Drops = ds.countP (¬own.Accepts ·) := by
  have valid : policy.Valid (.rule scope rule) := admitted
  have itself : ¬policy.Drops ⟨[], .rule scope rule⟩ := fun drops => drops.2 valid
  have valid_declaration (d : Declaration) : policy.Valid (.declaration own d) ↔ own.Accepts d :=
    Iff.rfl
  rw [outlineOf_of_declarations held, List.countP_cons_of_neg (by simpa using itself),
    List.countP_map]
  simp [Function.comp_def, Drops, Reached, valid, valid_declaration]

theorem countP_drops_outlineOf_of_rules (admitted : policy.Admits scope rule) {inner : Scope}
    {rules : List Rule} (held : policy.contents? scope rule = some (.rules inner rules)) :
    (policy.outlineOf scope rule).countP policy.Drops =
      (policy.outline inner rules).countP policy.Drops := by
  have valid : policy.Valid (.rule scope rule) := admitted
  have itself : ¬policy.Drops ⟨[], .rule scope rule⟩ := fun drops => drops.2 valid
  rw [outlineOf_of_rules held, List.countP_cons_of_neg (by simpa using itself), List.countP_map]
  simp [Function.comp_def, drops_under, valid]

theorem errorCount_checkIn (standard : policy.Standard) (scope : Scope) (rule : Rule)
    (index : Nat) :
    Diagnostic.errorCount (policy.checkIn scope index rule).diagnostics =
      (policy.outlineOf scope rule).countP policy.Drops := by
  induction scope, rule using induction_on_contents policy generalizing index with
  | step scope rule ih =>
      rcases policy.refused_or_opened scope rule with
        refused | ⟨own, ds, admitted, opened⟩ | ⟨inner, rules, admitted, opened⟩
      · obtain ⟨why, dropped, isError, -⟩ := exists_drop_of_not_admits standard refused index
        rw [countP_drops_outlineOf_of_not_admits refused, dropped, Checked.diagnostics_drop]
        simp [Diagnostic.errorCount, isError]
      · rw [checkIn_of_declarations admitted opened, Checked.diagnostics_inside,
          Diagnostic.errorCount_allNestedIn, DeclarationPolicy.errorCount_checkAll,
          countP_drops_outlineOf_of_declarations admitted opened]
      · rw [checkIn_of_rules admitted opened, Checked.diagnostics_inside,
          Diagnostic.errorCount_allNestedIn, checkAllIn,
          Checked.errorCount_each (ih inner rules opened),
          countP_drops_outlineOf_of_rules admitted opened, outline_eq_flatMap]

theorem errorCount_checkAllIn (standard : policy.Standard) (scope : Scope) (rules : List Rule) :
    Diagnostic.errorCount (policy.checkAllIn scope rules).diagnostics =
      (policy.outline scope rules).countP policy.Drops := by
  rw [checkAllIn, Checked.errorCount_each fun r _ => errorCount_checkIn standard scope r,
    outline_eq_flatMap]

/-- Of the nodes reached, those that do not survive are dropped. -/
theorem countP_survives_add_countP_drops (es : List Entry) :
    es.countP policy.Survives + es.countP policy.Drops = es.countP policy.Reached := by
  induction es with
  | nil => rfl
  | cons e es ih =>
      by_cases reached : policy.Reached e
      · by_cases valid : policy.Valid e.node
        · have survives : policy.Survives e := ⟨reached, valid⟩
          have stays : ¬policy.Drops e := fun drops => drops.2 valid
          simp [reached, survives, stays]
          omega
        · have lost : ¬policy.Survives e := fun survives => valid survives.2
          have drops : policy.Drops e := ⟨reached, valid⟩
          simp [reached, lost, drops]
          omega
      · have lost : ¬policy.Survives e := fun survives => reached survives.1
        have stays : ¬policy.Drops e := fun drops => reached drops.1
        simp [reached, lost, stays, ih]

theorem length_outline_survivors (standard : policy.Standard) (scope : Scope)
    (rules : List Rule) :
    (policy.outline scope (policy.survivors scope rules)).length =
      (policy.outline scope rules).countP policy.Survives := by
  have shown := outline_survivors_of_shows fun r (_ : r ∈ rules) => shows standard scope r
  have lengths := congrArg List.length shown
  rwa [List.length_map, List.length_map, ← List.countP_eq_length_filter] at lengths

end Policy

end CssSieve
