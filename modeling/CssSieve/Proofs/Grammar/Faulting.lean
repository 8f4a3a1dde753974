import CssSieve.Proofs.Grammar.Arranging

/-!
# Where faults come from

A combinator notes what its parts note, and each part is asked only where the parts before it can
stop: what stands in a sequence before a part has been matched (`noted_inOrder`), and so have the
repetitions before the next one (`noted_repeated`). A repetition notes something of its own when it
falls short of its least count, and what it then says of itself is true (`FallsShort`).
-/

namespace CssSieve

theorem Outcome.noted_gather {α : Type} {f : α → Outcome} {as : List α} {entry : Nat × Fault}
    (noted : entry ∈ (gather f as).faults.toList) : ∃ a ∈ as, entry ∈ (f a).faults.toList := by
  induction as with
  | nil => cases noted
  | cons a as ih =>
      rcases Furthest.mem_toList_append noted with here | later
      · exact ⟨a, List.mem_cons_self, here⟩
      · obtain ⟨b, hb, there⟩ := ih later
        exact ⟨b, List.mem_cons_of_mem a hb, there⟩

namespace Levels

variable {l : Levels} {n e : Nat}

theorem At.lt_length (h : l.At n e) : n < l.levels.length := by
  obtain ⟨level, here, -⟩ := h
  exact (List.getElem?_eq_some_iff.mp here).1

theorem mem_flatten_iff : e ∈ l.levels.flatten ↔ ∃ n, l.At n e := by
  rw [List.mem_flatten]
  constructor
  · rintro ⟨level, listed, he⟩
    obtain ⟨n, here⟩ := List.mem_iff_getElem?.mp listed
    exact ⟨n, level, here, he⟩
  · rintro ⟨n, level, here, he⟩
    exact ⟨level, List.mem_of_getElem? here, he⟩

/-- Where no level is empty, the last one holds an end. -/
theorem exists_at_last (l : Levels) (some_level : 0 < l.levels.length)
    (filled : ∀ level ∈ l.levels, level ≠ []) : ∃ e, l.At (l.levels.length - 1) e := by
  have last : l.levels.length - 1 < l.levels.length := by omega
  obtain ⟨e, he⟩ := List.exists_mem_of_ne_nil _ (filled _ (List.getElem_mem last))
  exact ⟨e, _, List.getElem?_eq_getElem last, he⟩

end Levels

namespace Search

variable {part : Search} {values : List Value} {start : Nat} {entry : Nat × Fault}

/-! ## Single values -/

/-- The one fault of a function or block is that its contents do not match. -/
theorem noted_group {inside : Value → Option (List Value)} {fault : Fault} {contents : Search}
    (noted : entry ∈ (group inside fault contents values start).faults.toList) :
    ∃ v vs, Gap values start entry.1 ∧ values[entry.1]? = some v ∧ vs ∈ inside v ∧
      ¬contents.matchesAll vs ∧ entry.2 = fault := by
  rw [group] at noted
  split at noted
  next i v found =>
    obtain ⟨gap, here⟩ := nextValue?_eq_some_iff.mp found
    split at noted
    next vs opened =>
      split at noted
      next => cases noted
      next refused =>
        rcases Furthest.mem_toList_record noted with nothing | rfl
        · cases nothing
        · exact ⟨v, vs, gap, here, opened, refused, rfl⟩
    next => cases noted
  next => cases noted

/-! ## Alternatives and sequences -/

theorem noted_oneOf {parts : List Search}
    (noted : entry ∈ (oneOf parts values start).faults.toList) :
    ∃ part ∈ parts, entry ∈ (part values start).faults.toList :=
  Outcome.noted_gather noted

theorem noted_onceMore {comma : Bool} {pos : Nat}
    (noted : entry ∈ (onceMore part comma values pos).faults.toList) :
    ∃ p ∈ afterGap? comma values pos, entry ∈ (part values p).faults.toList := by
  rw [onceMore] at noted
  split at noted
  next p found => exact ⟨p, found, noted⟩
  next => cases noted

theorem noted_fromEach {comma : Bool} {positions : List Nat}
    (noted : entry ∈ (fromEach comma part values positions).faults.toList) :
    ∃ pos ∈ positions, ∃ p ∈ afterGap? comma values pos,
      entry ∈ (part values p).faults.toList := by
  have gathered : entry ∈ (Outcome.gather (onceMore part comma values) positions).faults.toList :=
    noted
  obtain ⟨pos, hpos, here⟩ := Outcome.noted_gather gathered
  exact ⟨pos, hpos, noted_onceMore here⟩

/-- A part of a sequence is asked behind a match of the parts before it, and notes something. -/
def NotesInOrder (commas : Bool) (parts : List Search) (values : List Value) (start : Nat)
    (entry : Nat × Fault) : Prop :=
  ∃ before part after, parts = before ++ part :: after ∧
    ∃ pos, Span.inOrder commas (before.map span) values start pos ∧
      ∃ p ∈ afterGap? (commas && !before.isEmpty) values pos,
        entry ∈ (part values p).faults.toList

theorem reached_fromEach {commas : Bool} {done : List Search} {positions : List Nat}
    (reached : ∀ pos ∈ positions, Span.inOrder commas (done.map span) values start pos) :
    ∀ e ∈ (fromEach (commas && !done.isEmpty) part values positions).ends,
      Span.inOrder commas ((done ++ [part]).map span) values start e := by
  intro e he
  obtain ⟨pos, hpos, once⟩ := (mem_ends_fromEach (finds_span part)).mp he
  rw [List.map_append, List.map_singleton, Span.inOrder_concat, List.isEmpty_map]
  exact ⟨pos, reached pos hpos, once⟩

theorem noted_inOrderFrom {commas : Bool} {parts done : List Search} {positions : List Nat}
    (some_done : done ≠ [])
    (reached : ∀ pos ∈ positions, Span.inOrder commas (done.map span) values start pos)
    (noted : entry ∈ (inOrderFrom commas values parts positions).faults.toList) :
    NotesInOrder commas (done ++ parts) values start entry := by
  induction parts generalizing done positions with
  | nil => cases noted
  | cons part parts ih =>
      have gap : commas = (commas && !done.isEmpty) := by simp [some_done]
      rcases Furthest.mem_toList_append noted with here | later
      · rw [gap] at here
        obtain ⟨pos, hpos, p, hp, here⟩ := noted_fromEach here
        exact ⟨done, part, parts, rfl, pos, reached pos hpos, p, hp, here⟩
      · rw [gap] at later
        have further := ih (List.concat_ne_nil part done) (reached_fromEach reached) (gap ▸ later)
        simpa using further

theorem noted_inOrder {commas : Bool} {parts : List Search}
    (noted : entry ∈ (inOrder commas parts values start).faults.toList) :
    NotesInOrder commas parts values start entry := by
  cases parts with
  | nil => cases noted
  | cons part parts =>
      have begun : ∀ pos ∈ [start], Span.inOrder commas (([] : List Search).map span) values start
          pos := by
        intro pos hpos
        exact List.mem_singleton.mp hpos
      have gap : (commas && !([] : List Search).isEmpty) = false := Bool.and_false commas
      rcases Furthest.mem_toList_append noted with here | later
      · obtain ⟨pos, hpos, p, hp, here⟩ := noted_fromEach here
        exact ⟨[], part, parts, rfl, pos, begun pos hpos, p, gap ▸ hp, here⟩
      · exact noted_inOrderFrom (List.cons_ne_nil part []) (gap ▸ reached_fromEach begun) later

/-! ## Repetitions -/

theorem noted_rung {comma : Bool} {positions : List Nat}
    (noted : entry ∈ (rung part comma values positions).faults.toList) :
    ∃ pos ∈ positions, entry ∈ (onceMore part comma values pos).faults.toList := by
  induction positions with
  | nil => cases noted
  | cons pos rest ih =>
      rcases Furthest.mem_toList_append noted with here | later
      · exact ⟨pos, List.mem_cons_self, here⟩
      · obtain ⟨p, hp, there⟩ := ih later
        exact ⟨p, List.mem_cons_of_mem pos hp, there⟩

variable {m : Multiplier}

/-- A repeated part is asked behind repetitions that were matched, and notes something. -/
def NotesAgain (m : Multiplier) (part : Search) (values : List Value) (start : Nat)
    (entry : Nat × Fault) : Prop :=
  ∃ n pos, Climbs m part values start n pos ∧
    ∃ p ∈ afterGap? (m.commas && n != 0) values pos, entry ∈ (part values p).faults.toList

theorem Caught.noted_climb (forward : part.Forward) {steps count : Nat} {tried level : List Nat}
    (h : Caught m part values start count tried level)
    (noted : entry ∈ (climb m part values steps count tried level).faults.toList) :
    NotesAgain m part values start entry := by
  induction steps generalizing count tried level with
  | zero => cases noted
  | succ steps ih =>
      have here (risen : entry ∈ (above m part values count tried level).faults.toList) :
          NotesAgain m part values start entry := by
        obtain ⟨pos, hpos, once⟩ := noted_rung risen
        exact ⟨count, pos, h.reached pos (mem_of_mem_fresh hpos), noted_onceMore once⟩
      rw [climb_succ] at noted
      dsimp only at noted
      split at noted
      next allowed =>
        split at noted
        next => exact here noted
        next =>
          rcases Furthest.mem_toList_append noted with risen | later
          · exact here risen
          · exact ih (h.next forward allowed) later
      next => cases noted

/-- Every level of a climb holds a position if the first one does. -/
theorem ne_nil_of_mem_climb {steps count : Nat} {tried level : List Nat} (some_here : level ≠ []) :
    ∀ l ∈ (climb m part values steps count tried level).levels, l ≠ [] := by
  have lone : ∀ l ∈ [level], l ≠ [] := by simpa using some_here
  induction steps generalizing count tried level with
  | zero => exact lone
  | succ steps ih =>
      rw [climb_succ]
      dsimp only
      split
      next =>
        split
        next => exact lone
        next some_next =>
          have above_here : distinct (above m part values count tried level).ends ≠ [] := by
            simpa using some_next
          exact List.forall_mem_cons.mpr ⟨some_here, ih above_here (by simpa using above_here)⟩
      next => exact lone

/-- Repetitions that each move on are none of them empty, unless one stands behind a comma, which
moves it on. -/
theorem Climbs.nonempty {n e : Nat} (climbs : Climbs m part values start n e)
    (solid : m.commas = false ∨ ∀ pos, pos ∉ (part values pos).ends) :
    Span.inOrder m.commas (List.replicate n part.span.nonempty) values start e := by
  induction climbs with
  | start => rfl
  | @step n p e _ _ he progress ih =>
      rw [List.replicate_succ', Span.inOrder_concat, List.isEmpty_replicate]
      refine ⟨p, ih, ?_⟩
      have once := mem_again_iff.mp he
      show Span.afterGap (m.commas && n != 0) part.span.nonempty values p e
      cases behind_comma : m.commas && n != 0 with
      | false =>
          rw [behind_comma] at once
          exact ⟨once, progress⟩
      | true =>
          rw [behind_comma] at once
          obtain ⟨q, comma, found⟩ := once
          refine ⟨q, comma, found, ?_⟩
          rintro rfl
          simp only [Bool.and_eq_true] at behind_comma
          exact (solid.resolve_left (by simp [behind_comma.1])) e found

/-- A repetition was found, but too few times: the part can be repeated that often, each time moving
on, and not as often as it has to be. The offset is that of an end of these repetitions. -/
structure FallsShort (m : Multiplier) (part : Search) (values : List Value)
    (start found offset : Nat) : Prop where
  some_found : 0 < found
  too_few : found < m.least
  reached : ∃ e ≤ offset, Climbs m part values start found e
  nonempty : (m.commas = false ∨ ∀ pos, pos ∉ (part values pos).ends) →
    ∃ e, Span.inOrder m.commas (List.replicate found part.span.nonempty) values start e
  furthest : ∃ n ≤ found, Climbs m part values start n offset
  missing : ∀ n e, m.least ≤ n → ¬Climbs m part values start n e

theorem FallsShort.within (forward : part.Forward) {found offset : Nat}
    (short : FallsShort m part values start found offset) :
    start ≤ offset ∧ offset ≤ values.length := by
  obtain ⟨e, before, reached⟩ := short.reached
  have moved := reached.add_le forward
  have some_found := short.some_found
  obtain ⟨n, -, furthest⟩ := short.furthest
  have inside := furthest.forward forward
  omega

/-- Without an end but with repetitions, there are too few of them. -/
theorem fallsShort_of_ends_eq_nil (forward : part.Forward)
    (no_end : (repeated m part values start).ends = [])
    (some_found : (levelsFrom m part values start).levels.length - 1 ≠ 0) :
    FallsShort m part values start ((levelsFrom m part values start).levels.length - 1)
      ((levelsFrom m part values start).levels.flatten.foldl max start) := by
  have climbs_of_at {n e : Nat} (he : (levelsFrom m part values start).At n e) :
      Climbs m part values start n e := by
    simpa using Caught.initial.climbs_of_at forward he
  have missing : ∀ n e, m.least ≤ n → ¬Climbs m part values start n e := by
    intro n e enough climbs
    have found : e ∈ (repeated m part values start).ends :=
      (mem_ends_repeated_iff forward).mpr (Or.inl ⟨n, enough, climbs⟩)
    rw [no_end] at found
    cases found
  have filled : ∀ level ∈ (levelsFrom m part values start).levels, level ≠ [] :=
    ne_nil_of_mem_climb (List.cons_ne_nil start [])
  generalize levelsFrom m part values start = all at *
  obtain ⟨e, at_last⟩ := all.exists_at_last (by omega) filled
  have climbs := climbs_of_at at_last
  have greatest : (start :: all.levels.flatten).max? =
      some (all.levels.flatten.foldl max start) := rfl
  obtain ⟨among, above⟩ := List.max?_eq_some_iff.mp greatest
  refine ⟨Nat.pos_of_ne_zero some_found, ?_, ?_, fun solid => ⟨e, climbs.nonempty solid⟩, ?_,
    missing⟩
  · by_contra enough
    exact missing _ e (Nat.le_of_not_lt enough) climbs
  · have listed : e ∈ all.levels.flatten := Levels.mem_flatten_iff.mpr ⟨_, at_last⟩
    exact ⟨e, above e (List.mem_cons_of_mem start listed), climbs⟩
  · rcases List.mem_cons.mp among with same | listed
    · rw [same]
      exact ⟨0, Nat.zero_le _, .start⟩
    · obtain ⟨n, at_level⟩ := Levels.mem_flatten_iff.mp listed
      have inside := at_level.lt_length
      exact ⟨n, by omega, climbs_of_at at_level⟩

theorem noted_repeated (forward : part.Forward)
    (noted : entry ∈ (repeated m part values start).faults.toList) :
    NotesAgain m part values start entry ∨
      ∃ found, FallsShort m part values start found entry.1 ∧
        entry.2 = .repetitions m.least found := by
  have of_climb (climbed : entry ∈ (levelsFrom m part values start).faults.toList) :=
    Caught.initial.noted_climb forward climbed
  rw [repeated] at noted
  split at noted
  next few =>
    simp only [Bool.and_eq_true, List.isEmpty_iff, bne_iff_ne] at few
    rcases Furthest.mem_toList_record noted with climbed | rfl
    · exact Or.inl (of_climb climbed)
    · have no_end : (repeated m part values start).ends = [] := ends_repeated.trans few.1
      exact Or.inr ⟨_, fallsShort_of_ends_eq_nil forward no_end few.2, rfl⟩
  next => exact Or.inl (of_climb noted)

end Search

end CssSieve
