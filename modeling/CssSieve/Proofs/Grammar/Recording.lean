import CssSieve.Grammar.Furthest

/-!
# Laws of records

A record keeps what was noted furthest on, so it does not matter how notes are brought together:
`++` is associative (`append_assoc`), also when other notes stand in place of these
(`append_map_append`), and adding a record for the second time adds nothing
(`append_append_absorb`). Moving every offset by the same distance commutes with noting and with
bringing together (`shift_record`, `shift_append`). What a record holds in the end is what was noted
furthest on, in whatever order it was noted (`Keeps.mem_toList_iff`).
-/

namespace CssSieve.Furthest

variable {α : Type} {f g : Furthest α} {offset distance : Nat} {note : α}

/-! ## Moving offsets -/

/-- The record with every offset moved by a distance. -/
def shift (distance : Nat) (f : Furthest α) : Furthest α :=
  if f.notes = [] then f else ⟨distance + f.offset, f.notes⟩

theorem shift_empty : (∅ : Furthest α).shift distance = ∅ := rfl

theorem notes_shift (f : Furthest α) : (f.shift distance).notes = f.notes := by
  unfold shift
  split <;> rfl

theorem offset_shift (noted : f.notes ≠ []) : (f.shift distance).offset = distance + f.offset := by
  rw [shift, if_neg noted]

theorem shift_of_noted (noted : f.notes ≠ []) :
    f.shift distance = ⟨distance + f.offset, f.notes⟩ := if_neg noted

theorem toList_shift (f : Furthest α) :
    (f.shift distance).toList = f.toList.map fun entry => (distance + entry.1, entry.2) := by
  by_cases noted : f.notes = []
  · simp [toList, notes_shift, noted]
  · simp [toList, shift_of_noted noted]

/-! ## Other notes in place of these -/

section

variable {β : Type} (h : α → β)

/-- The record with another note in place of each. -/
def map (f : Furthest α) : Furthest β := ⟨f.offset, f.notes.map h⟩

theorem shift_map (f : Furthest α) : (f.map h).shift distance = (f.shift distance).map h := by
  by_cases noted : f.notes = []
  · have replaced : (f.map h).notes = [] := by rw [map, noted, List.map_nil]
    rw [shift, if_pos replaced, shift, if_pos noted]
  · have replaced : (f.map h).notes ≠ [] := mt List.map_eq_nil_iff.mp noted
    rw [shift_of_noted replaced, shift_of_noted noted]
    rfl

end

theorem map_id (f : Furthest α) : f.map id = f := by rw [map, List.map_id]

/-! ## What a record knows -/

/-- A note adds nothing to the record: something was noted further on, or the note is there. -/
structure Knows (f : Furthest α) (offset : Nat) (note : α) : Prop where
  noted : f.notes ≠ []
  within : offset ≤ f.offset
  known : f.offset = offset → note ∈ f.notes

theorem Knows.map {β : Type} (h : α → β) (known : f.Knows offset note) :
    (f.map h).Knows offset (h note) :=
  ⟨mt List.map_eq_nil_iff.mp known.noted, known.within,
    fun same => List.mem_map_of_mem (known.known same)⟩

theorem mem_toList {entry : Nat × α} :
    entry ∈ f.toList ↔ entry.1 = f.offset ∧ entry.2 ∈ f.notes := by
  rw [toList, List.mem_map]
  constructor
  · rintro ⟨note, noted, rfl⟩
    exact ⟨rfl, noted⟩
  · rintro ⟨same, noted⟩
    exact ⟨entry.2, noted, Prod.ext same.symm rfl⟩

theorem knows_of_mem_toList {entry : Nat × α} (h : entry ∈ f.toList) :
    f.Knows entry.1 entry.2 := by
  obtain ⟨same, noted⟩ := mem_toList.mp h
  exact ⟨List.ne_nil_of_mem noted, Nat.le_of_eq same, fun _ => noted⟩

/-! ## What a record keeps -/

/-- All that the record holds is among the entries, and the record knows each of them. -/
structure Keeps (f : Furthest α) (entries : Nat × α → Prop) : Prop where
  kept : ∀ entry ∈ f.toList, entries entry
  known : ∀ entry, entries entry → f.Knows entry.1 entry.2

variable {entries others : Nat × α → Prop}

/-- Of the entries, a record keeps those that are furthest on. -/
theorem Keeps.mem_toList_iff (h : f.Keeps entries) {entry : Nat × α} :
    entry ∈ f.toList ↔ entries entry ∧ ∀ other, entries other → other.1 ≤ entry.1 := by
  constructor
  · intro kept
    refine ⟨h.kept entry kept, fun other listed => ?_⟩
    rw [(mem_toList.mp kept).1]
    exact (h.known other listed).within
  · rintro ⟨listed, furthest⟩
    have known := h.known entry listed
    -- a note shows how far the record got, which is no further than this entry
    obtain ⟨note, noted⟩ := List.exists_mem_of_ne_nil _ known.noted
    have reached := furthest (f.offset, note) (h.kept _ (mem_toList.mpr ⟨rfl, noted⟩))
    have same : f.offset = entry.1 := Nat.le_antisymm reached known.within
    exact mem_toList.mpr ⟨same.symm, known.known same⟩

theorem Keeps.congr (h : f.Keeps entries) (same : ∀ entry, entries entry ↔ others entry) :
    f.Keeps others := by
  constructor
  · intro entry kept
    exact (same entry).mp (h.kept entry kept)
  · intro entry listed
    exact h.known entry ((same entry).mpr listed)

theorem keeps_empty : (∅ : Furthest α).Keeps fun _ => False := by
  constructor
  · intro entry h
    cases h
  · intro entry h
    exact h.elim

theorem keeps_toList (f : Furthest α) : f.Keeps (· ∈ f.toList) :=
  ⟨fun _ h => h, fun _ h => knows_of_mem_toList h⟩

theorem Keeps.map {β : Type} (h : f.Keeps entries) (k : α → β) :
    (f.map k).Keeps fun entry => ∃ note, entries (entry.1, note) ∧ k note = entry.2 := by
  constructor
  · intro entry kept
    obtain ⟨same, noted⟩ := mem_toList.mp kept
    obtain ⟨note, noted, replaced⟩ := List.mem_map.mp noted
    exact ⟨note, h.kept _ (mem_toList.mpr ⟨same, noted⟩), replaced⟩
  · rintro ⟨offset, -⟩ ⟨note, listed, rfl⟩
    exact (h.known _ listed).map k

/-! ## Noting -/

variable [DecidableEq α]

theorem record_of_knows (h : f.Knows offset note) : f.record offset note = f := by
  have not_further : ¬(f.notes.isEmpty ∨ f.offset < offset) := by
    simp [h.noted, Nat.not_lt.mpr h.within]
  have nearer_or_known : offset < f.offset ∨ note ∈ f.notes := by
    rcases Nat.eq_or_lt_of_le h.within with same | nearer
    · exact Or.inr (h.known same.symm)
    · exact Or.inl nearer
  rw [record, if_neg not_further, if_pos nearer_or_known]

/-- A note behind everything that was noted before replaces it. -/
theorem record_further (h : f.notes = [] ∨ f.offset < offset) (note : α) :
    f.record offset note = ⟨offset, [note]⟩ := by
  rw [record, if_pos]
  simpa using h

/-- A new note as far on as the others is put behind them. -/
theorem record_new (noted : f.notes ≠ []) (new : note ∉ f.notes) :
    f.record f.offset note = ⟨f.offset, f.notes ++ [note]⟩ := by
  simp [record, noted, new]

/-- All that can become of a note. -/
theorem record_cases (f : Furthest α) (offset : Nat) (note : α) :
    (f.notes = [] ∨ f.offset < offset) ∨ f.Knows offset note ∨
      f.notes ≠ [] ∧ offset = f.offset ∧ note ∉ f.notes := by
  by_cases noted : f.notes = []
  · exact Or.inl (Or.inl noted)
  · rcases Nat.lt_trichotomy f.offset offset with further | same | nearer
    · exact Or.inl (Or.inr further)
    · by_cases known : note ∈ f.notes
      · exact Or.inr (Or.inl ⟨noted, Nat.le_of_eq same.symm, fun _ => known⟩)
      · exact Or.inr (Or.inr ⟨noted, same.symm, known⟩)
    · exact Or.inr (Or.inl ⟨noted, Nat.le_of_lt nearer, fun same => absurd same (Nat.ne_of_gt nearer)⟩)

theorem knows_record (f : Furthest α) (offset : Nat) (note : α) :
    (f.record offset note).Knows offset note := by
  rcases record_cases f offset note with further | known | ⟨noted, rfl, new⟩
  · rw [record_further further]
    exact ⟨by simp, Nat.le_refl _, by simp⟩
  · rwa [record_of_knows known]
  · rw [record_new noted new]
    exact ⟨by simp, Nat.le_refl _, by simp⟩

/-- What a record knows, it knows after any other note. -/
theorem Knows.record (h : f.Knows offset note) (other : Nat) (next : α) :
    (f.record other next).Knows offset note := by
  rcases record_cases f other next with none_noted | known | ⟨noted, rfl, new⟩
  · have further : f.offset < other := none_noted.resolve_left h.noted
    have behind : offset < other := Nat.lt_of_le_of_lt h.within further
    rw [record_further none_noted]
    exact ⟨by simp, Nat.le_of_lt behind, fun same => absurd same (Nat.ne_of_gt behind)⟩
  · rwa [record_of_knows known]
  · rw [record_new noted new]
    exact ⟨by simp, h.within, fun same => List.mem_append_left _ (h.known same)⟩

/-- A note that is not as far on as the next one makes no difference. -/
theorem record_record_of_lt (f : Furthest α) {near far : Nat} (h : near < far) (other note : α) :
    (f.record near other).record far note = f.record far note := by
  -- only a note that is further on than the near one can outdo the far one, and then it is in `f`
  rcases record_cases f near other with further | known | ⟨noted, rfl, new⟩
  · have replaced : f.notes = [] ∨ f.offset < far := further.imp id fun before => by omega
    rw [record_further further, record_further replaced]
    exact record_further (Or.inr h) note
  · rw [record_of_knows known]
  · have behind : (⟨f.offset, f.notes ++ [other]⟩ : Furthest α).offset < far := h
    rw [record_new noted new, record_further (Or.inr behind), record_further (Or.inr h)]

/-! ## Bringing records together -/

/-- The record with several notes at one offset. -/
def recordAll (f : Furthest α) (offset : Nat) (notes : List α) : Furthest α :=
  notes.foldl (fun f note => f.record offset note) f

theorem append_def (f g : Furthest α) : f ++ g = f.recordAll g.offset g.notes := rfl

theorem append_empty (f : Furthest α) : f ++ ∅ = f := rfl

theorem Knows.recordAll (h : f.Knows offset note) (other : Nat) (notes : List α) :
    (f.recordAll other notes).Knows offset note := by
  induction notes generalizing f with
  | nil => exact h
  | cons next notes ih => exact ih (h.record other next)

theorem knows_recordAll (f : Furthest α) {notes : List α} (h : note ∈ notes) :
    (f.recordAll offset notes).Knows offset note := by
  induction notes generalizing f with
  | nil => exact absurd h List.not_mem_nil
  | cons next notes ih =>
      rcases List.mem_cons.mp h with rfl | h
      · exact (knows_record f offset note).recordAll offset notes
      · exact ih (f.record offset next) h

theorem recordAll_of_knows {notes : List α} (h : ∀ note ∈ notes, f.Knows offset note) :
    f.recordAll offset notes = f := by
  induction notes with
  | nil => rfl
  | cons note notes ih =>
      obtain ⟨first, others⟩ := List.forall_mem_cons.mp h
      rw [Furthest.recordAll, List.foldl_cons, record_of_knows first]
      exact ih others

theorem record_recordAll_of_lt (f : Furthest α) {near far : Nat} (h : near < far) (notes : List α)
    (note : α) : (f.recordAll near notes).record far note = f.record far note := by
  induction notes generalizing f with
  | nil => rfl
  | cons other notes ih => exact (ih (f.record near other)).trans (record_record_of_lt f h other note)

/-- Both records together know what the second knows. -/
theorem Knows.of_append (f : Furthest α) (h : g.Knows offset note) :
    (f ++ g).Knows offset note := by
  -- any note of the second record shows how far both together got
  obtain ⟨other, hother⟩ := List.exists_mem_of_ne_nil _ h.noted
  have reached : (f ++ g).Knows g.offset other := knows_recordAll f hother
  refine ⟨reached.noted, Nat.le_trans h.within reached.within, ?_⟩
  intro same
  have within := h.within
  have beyond := reached.within
  have here : g.offset = offset := by omega
  have known : (f ++ g).Knows g.offset note := knows_recordAll f (h.known here)
  exact known.known (same.trans here.symm)

theorem mem_toList_record {entry : Nat × α} (h : entry ∈ (f.record offset note).toList) :
    entry ∈ f.toList ∨ entry = (offset, note) := by
  rcases record_cases f offset note with further | known | ⟨noted, rfl, new⟩
  · rw [record_further further] at h
    exact Or.inr (List.mem_singleton.mp h)
  · rw [record_of_knows known] at h
    exact Or.inl h
  · rw [record_new noted new, mem_toList, List.mem_append, List.mem_singleton] at h
    obtain ⟨here, old | new⟩ := h
    · exact Or.inl (mem_toList.mpr ⟨here, old⟩)
    · exact Or.inr (Prod.ext here new)

theorem mem_toList_append {entry : Nat × α} (h : entry ∈ (f ++ g).toList) :
    entry ∈ f.toList ∨ entry ∈ g.toList := by
  have noted (notes : List α) (f : Furthest α)
      (h : entry ∈ (f.recordAll g.offset notes).toList) :
      entry ∈ f.toList ∨ entry.1 = g.offset ∧ entry.2 ∈ notes := by
    induction notes generalizing f with
    | nil => exact Or.inl h
    | cons note notes ih =>
        rcases ih (f.record g.offset note) h with before | ⟨here, later⟩
        · rcases mem_toList_record before with before | rfl
          · exact Or.inl before
          · exact Or.inr ⟨rfl, List.mem_cons_self⟩
        · exact Or.inr ⟨here, List.mem_cons_of_mem note later⟩
  exact (noted g.notes f h).imp_right mem_toList.mpr

theorem Keeps.append (hf : f.Keeps entries) (hg : g.Keeps others) :
    (f ++ g).Keeps fun entry => entries entry ∨ others entry := by
  constructor
  · intro entry h
    exact (mem_toList_append h).imp (hf.kept entry) (hg.kept entry)
  · rintro entry (listed | listed)
    · exact (hf.known entry listed).recordAll g.offset g.notes
    · exact (hg.known entry listed).of_append f

/-! ## Bringing records together with other notes -/

section

variable {β : Type} [DecidableEq β] (h : α → β)

/-- It makes no difference whether a note is added to the second record or to both together. -/
theorem append_map_record (before : Furthest β) (f : Furthest α) (offset : Nat) (note : α) :
    before ++ (f.record offset note).map h = (before ++ f.map h).record offset (h note) := by
  rcases record_cases f offset note with further | known | ⟨noted, rfl, new⟩
  -- a note behind all others of the second record outdoes those of them that were kept
  · have outdone : (before ++ f.map h).record offset (h note) = before.record offset (h note) := by
      rcases further with none_noted | behind
      · rw [append_def, Furthest.map, none_noted]
        rfl
      · exact record_recordAll_of_lt before behind (f.notes.map h) (h note)
    rw [record_further further, outdone]
    rfl
  · rw [record_of_knows known, record_of_knows ((known.map h).of_append before)]
  · rw [record_new noted new, append_def, Furthest.map, List.map_append]
    exact List.foldl_append

theorem append_map_recordAll (before : Furthest β) (f : Furthest α) (offset : Nat)
    (notes : List α) :
    before ++ (f.recordAll offset notes).map h =
      (before ++ f.map h).recordAll offset (notes.map h) := by
  induction notes generalizing f with
  | nil => rfl
  | cons note notes ih =>
      show before ++ ((f.record offset note).recordAll offset notes).map h = _
      rw [ih, append_map_record]
      rfl

theorem append_map_append (before : Furthest β) (f g : Furthest α) :
    before ++ (f ++ g).map h = before ++ f.map h ++ g.map h :=
  append_map_recordAll h before f g.offset g.notes

end

theorem append_record (f g : Furthest α) (offset : Nat) (note : α) :
    f ++ g.record offset note = (f ++ g).record offset note := by
  have replaced := append_map_record id f g offset note
  rwa [map_id, map_id] at replaced

theorem append_assoc (f g h : Furthest α) : f ++ g ++ h = f ++ (g ++ h) := by
  have replaced := append_map_append id f g h
  rw [map_id, map_id, map_id] at replaced
  exact replaced.symm

/-- A record that was added before adds nothing, whatever came between. -/
theorem append_append_absorb (f g h : Furthest α) : f ++ g ++ h ++ g = f ++ g ++ h := by
  rw [append_def (f ++ g ++ h) g]
  apply recordAll_of_knows
  intro note noted
  have known : (f ++ g).Knows g.offset note := knows_recordAll f noted
  exact known.recordAll h.offset h.notes

/-! ## Moving offsets of records that are brought together -/

theorem shift_record (f : Furthest α) (offset : Nat) (note : α) :
    (f.record offset note).shift distance = (f.shift distance).record (distance + offset) note := by
  rcases record_cases f offset note with further | known | ⟨noted, rfl, new⟩
  · have moved : (f.shift distance).notes = [] ∨ (f.shift distance).offset < distance + offset := by
      rw [notes_shift]
      by_cases noted : f.notes = []
      · exact Or.inl noted
      · rw [offset_shift noted]
        exact Or.inr (Nat.add_lt_add_left (further.resolve_left noted) distance)
    rw [record_further further, record_further moved]
    rfl
  · have moved : (f.shift distance).Knows (distance + offset) note := by
      rw [shift_of_noted known.noted]
      refine ⟨known.noted, Nat.add_le_add_left known.within distance, fun same => known.known ?_⟩
      exact Nat.add_left_cancel same
    rw [record_of_knows known, record_of_knows moved]
  · rw [record_new noted new, shift_of_noted noted]
    have moved : (⟨distance + f.offset, f.notes⟩ : Furthest α).record (distance + f.offset) note =
        ⟨distance + f.offset, f.notes ++ [note]⟩ := record_new (f := ⟨_, f.notes⟩) noted new
    rw [moved]
    exact shift_of_noted (by simp)

theorem shift_recordAll (f : Furthest α) (offset : Nat) (notes : List α) :
    (f.recordAll offset notes).shift distance =
      (f.shift distance).recordAll (distance + offset) notes := by
  induction notes generalizing f with
  | nil => rfl
  | cons note notes ih =>
      show ((f.record offset note).recordAll offset notes).shift distance = _
      rw [ih, shift_record]
      rfl

theorem shift_append (f g : Furthest α) :
    (f ++ g).shift distance = f.shift distance ++ g.shift distance := by
  by_cases noted : g.notes = []
  · rw [append_def, append_def, notes_shift, noted]
    rfl
  · rw [append_def, append_def, notes_shift, offset_shift noted, shift_recordAll]

end CssSieve.Furthest
