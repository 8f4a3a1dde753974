import CssSieve.Proofs.Grammar.Span
import Mathlib.Data.List.Forall2

/-!
# Searches that find spans

A search finds a span if its ends are those of the span, from every position of every list. This
module has the searches for single values, for alternatives and for sequences.
-/

namespace CssSieve

/-! ## Positions -/

theorem skipWhitespace_of_whitespace {values : List Value} {pos : Nat} {v : Value}
    (h : values[pos]? = some v) (hv : v.isWhitespace) :
    skipWhitespace values pos = skipWhitespace values (pos + 1) := by
  obtain ⟨hpos, rfl⟩ := List.getElem?_eq_some_iff.mp h
  rw [skipWhitespace, List.drop_eq_getElem_cons hpos, List.takeWhile_cons_of_pos hv,
    List.length_cons, skipWhitespace]
  omega

theorem skipWhitespace_of_not_whitespace {values : List Value} {pos : Nat}
    (h : ∀ v ∈ values[pos]?, ¬v.isWhitespace) : skipWhitespace values pos = pos := by
  by_cases hpos : pos < values.length
  · have hv := h values[pos] (List.getElem?_eq_getElem hpos)
    rw [skipWhitespace, List.drop_eq_getElem_cons hpos, List.takeWhile_cons_of_neg hv]
    rfl
  · simp [skipWhitespace, List.drop_eq_nil_of_le (Nat.le_of_not_lt hpos)]

theorem Gap.extend {values : List Value} {pos e : Nat} {v : Value}
    (h : values[pos]? = some v) (hv : v.isWhitespace) (gap : Gap values (pos + 1) e) :
    Gap values pos e := by
  obtain ⟨le, white, stop⟩ := gap
  refine ⟨Nat.le_of_succ_le le, ?_, stop⟩
  intro i hi hie
  rcases Nat.eq_or_lt_of_le hi with rfl | hi
  · exact ⟨v, h, hv⟩
  · exact white i hi hie

theorem gap_skipWhitespace (values : List Value) (pos : Nat) :
    Gap values pos (skipWhitespace values pos) := by
  -- by induction on how many values are left, since the position moves up
  induction hn : values.length - pos generalizing pos with
  | zero =>
      have none_left : ∀ v ∈ values[pos]?, ¬v.isWhitespace := by
        simp [List.getElem?_eq_none (show values.length ≤ pos by omega)]
      rw [skipWhitespace_of_not_whitespace none_left]
      exact ⟨Nat.le_refl _, fun i hi hie => absurd hi (by omega), none_left⟩
  | succ n ih =>
      have hpos : pos < values.length := by omega
      have found : values[pos]? = some values[pos] := List.getElem?_eq_getElem hpos
      by_cases hv : values[pos].isWhitespace
      · rw [skipWhitespace_of_whitespace found hv]
        exact (ih (pos + 1) (by omega)).extend found hv
      · have stop : ∀ v ∈ values[pos]?, ¬v.isWhitespace := by simp [found, hv]
        rw [skipWhitespace_of_not_whitespace stop]
        exact ⟨Nat.le_refl _, fun i hi hie => absurd hi (by omega), stop⟩

theorem Gap.le_of_gap {values : List Value} {pos d e : Nat} (hd : Gap values pos d)
    (he : Gap values pos e) : d ≤ e := by
  apply Nat.le_of_not_lt
  intro lt
  obtain ⟨v, hv, white⟩ := hd.2.1 e he.1 lt
  exact he.2.2 v hv white

theorem gap_iff {values : List Value} {pos e : Nat} :
    Gap values pos e ↔ skipWhitespace values pos = e := by
  constructor
  · intro gap
    have skip := gap_skipWhitespace values pos
    exact Nat.le_antisymm (skip.le_of_gap gap) (gap.le_of_gap skip)
  · rintro rfl
    exact gap_skipWhitespace values pos

theorem nextValue?_eq_some_iff {values : List Value} {pos i : Nat} {v : Value} :
    nextValue? values pos = some (i, v) ↔ Gap values pos i ∧ values[i]? = some v := by
  rw [nextValue?, gap_iff]
  constructor
  · intro h
    obtain ⟨w, hw, same⟩ := Option.map_eq_some_iff.mp h
    cases same
    exact ⟨rfl, hw⟩
  · rintro ⟨rfl, hv⟩
    simp [hv]

theorem afterComma?_eq_some_iff {values : List Value} {pos e : Nat} :
    afterComma? values pos = some e ↔ Span.comma values pos e := by
  rw [afterComma?, Span.comma, Span.one]
  constructor
  · intro h
    split at h
    next i v found =>
      obtain ⟨gap, hv⟩ := nextValue?_eq_some_iff.mp found
      split at h
      next isComma => exact ⟨i, gap, ⟨v, hv, isComma⟩, by simpa using h.symm⟩
      next => cases h
    next => cases h
  · rintro ⟨i, gap, ⟨v, hv, isComma⟩, rfl⟩
    rw [nextValue?_eq_some_iff.mpr ⟨gap, hv⟩]
    simp [isComma]

namespace Search

/-! ## Single values -/

/-- The ends of the search are those of the span. -/
def Finds (search : Search) (span : Span) : Prop :=
  ∀ values start e, e ∈ (search values start).ends ↔ span values start e

theorem matchesAll_iff {search : Search} {span : Span} (h : search.Finds span)
    (values : List Value) : search.matchesAll values ↔ span.Covers values := by
  simp only [matchesAll, List.any_eq_true, beq_iff_eq, Span.Covers, h values 0, gap_iff]

theorem one_finds (accepts : Value → Bool) : (one accepts).Finds (Span.one (accepts ·)) := by
  intro values start e
  rw [one, Span.one]
  constructor
  · intro he
    split at he
    next i v found =>
      obtain ⟨gap, hv⟩ := nextValue?_eq_some_iff.mp found
      split at he
      next accepted => exact ⟨i, gap, ⟨v, hv, accepted⟩, by simpa [Outcome.stop] using he⟩
      next => simp [Outcome.fail] at he
    next => simp [Outcome.fail] at he
  · rintro ⟨i, gap, ⟨v, hv, accepted⟩, rfl⟩
    rw [nextValue?_eq_some_iff.mpr ⟨gap, hv⟩]
    simp [accepted, Outcome.stop]

theorem group_finds {contents : Search} {span : Span} (inside : Value → Option (List Value))
    (fault : Fault) (h : contents.Finds span) :
    (group inside fault contents).Finds (Span.group inside span) := by
  intro values start e
  rw [group, Span.group, Span.one]
  constructor
  · intro he
    split at he
    next i v found =>
      obtain ⟨gap, hv⟩ := nextValue?_eq_some_iff.mp found
      split at he
      next vs opened =>
        split at he
        next covered =>
          exact ⟨i, gap, ⟨v, hv, vs, opened, (matchesAll_iff h vs).mp covered⟩,
            by simpa [Outcome.stop] using he⟩
        next => simp [Outcome.faultAt] at he
      next => simp [Outcome.fail] at he
    next => simp [Outcome.fail] at he
  · rintro ⟨i, gap, ⟨v, hv, vs, opened, covered⟩, rfl⟩
    have opened : inside v = some vs := opened
    rw [nextValue?_eq_some_iff.mpr ⟨gap, hv⟩]
    simp [opened, (matchesAll_iff h vs).mpr covered, Outcome.stop]

theorem whitespace_finds (required : Bool) :
    (whitespace required).Finds (Span.whitespace required) := by
  intro values start e
  rw [Span.whitespace, gap_iff, whitespace]
  by_cases refused : (required && skipWhitespace values start == start) = true
  · rw [if_pos refused]
    simp only [Bool.and_eq_true, beq_iff_eq] at refused
    simp only [Outcome.fail, List.not_mem_nil, false_iff, not_and]
    intro same advances
    exact advances refused.1 (same ▸ refused.2)
  · rw [if_neg refused]
    simp only [Bool.and_eq_true, beq_iff_eq, not_and] at refused
    simp only [Outcome.stop, List.mem_singleton]
    constructor
    · rintro rfl
      exact ⟨rfl, refused⟩
    · rintro ⟨same, -⟩
      exact same.symm

theorem noWhitespace_finds : noWhitespace.Finds Span.noWhitespace := by
  intro values start e
  rw [noWhitespace, Span.noWhitespace]
  cases values[start]? with
  | none => simp [Outcome.stop]
  | some v => cases h : v.isWhitespace <;> simp [h, Outcome.stop, Outcome.fail]

/-! ## Alternatives and sequences -/

theorem mem_ends_gather {α : Type} {f : α → Outcome} {as : List α} {e : Nat} :
    e ∈ (Outcome.gather f as).ends ↔ ∃ a ∈ as, e ∈ (f a).ends := by
  induction as with
  | nil => simp [Outcome.gather, Outcome.fail]
  | cons a as ih => simp [Outcome.gather, Outcome.append, ih]

theorem mem_ends_oneOf {parts : List Search} {values : List Value} {start e : Nat} :
    e ∈ (oneOf parts values start).ends ↔ ∃ part ∈ parts, e ∈ (part values start).ends := by
  rw [oneOf, Outcome.dedup, mem_distinct, mem_ends_gather]

/-- Searches that find the spans of a list, one by one. -/
abbrev FindsAll : List Search → List Span → Prop := List.Forall₂ Finds

theorem oneOf_finds {parts : List Search} {spans : List Span} (h : FindsAll parts spans) :
    (oneOf parts).Finds (Span.oneOf spans) := by
  intro values start e
  rw [mem_ends_oneOf, Span.oneOf]
  induction h with
  | nil => simp
  | cons hd _ ih => simp [hd values start e, ih]

/-- A search right here or behind one comma. -/
theorem mem_ends_onceMore {part : Search} {span : Span} (h : part.Finds span) {comma : Bool}
    {values : List Value} {pos e : Nat} :
    e ∈ (onceMore part comma values pos).ends ↔ Span.afterGap comma span values pos e := by
  cases comma with
  | false => exact h values pos e
  | true =>
      simp only [onceMore, afterGap?, if_true, Span.afterGap]
      constructor
      · intro he
        split at he
        next m found => exact ⟨m, afterComma?_eq_some_iff.mp found, (h values m e).mp he⟩
        next => simp [Outcome.fail] at he
      · rintro ⟨m, found, he⟩
        rw [afterComma?_eq_some_iff.mpr found]
        exact (h values m e).mpr he

theorem mem_ends_fromEach {part : Search} {span : Span} (h : part.Finds span) {comma : Bool}
    {values : List Value} {positions : List Nat} {e : Nat} :
    e ∈ (fromEach comma part values positions).ends ↔
      ∃ pos ∈ positions, Span.afterGap comma span values pos e := by
  rw [fromEach, Outcome.dedup, mem_distinct, mem_ends_gather]
  simp only [← mem_ends_onceMore h]
  rfl

theorem mem_ends_inOrderFrom {parts : List Search} {spans : List Span} (h : FindsAll parts spans)
    {commas : Bool} {values : List Value} {positions : List Nat} {e : Nat} :
    e ∈ (inOrderFrom commas values parts positions).ends ↔
      ∃ pos ∈ positions, Span.andThen commas spans values pos e := by
  induction h generalizing positions with
  | nil => simp [inOrderFrom, Span.andThen]
  | cons hd _ ih =>
      simp only [inOrderFrom, Span.andThen, ih, mem_ends_fromEach hd]
      constructor
      · rintro ⟨m, ⟨pos, hpos, first⟩, rest⟩
        exact ⟨pos, hpos, m, first, rest⟩
      · rintro ⟨pos, hpos, m, first, rest⟩
        exact ⟨m, ⟨pos, hpos, first⟩, rest⟩

theorem inOrder_finds {parts : List Search} {spans : List Span} (h : FindsAll parts spans)
    (commas : Bool) : (inOrder commas parts).Finds (Span.inOrder commas spans) := by
  intro values start e
  cases h with
  | nil => simp [inOrder, Span.inOrder, Outcome.stop]
  | cons hd tl =>
      simp only [inOrder, Span.inOrder, mem_ends_inOrderFrom tl, mem_ends_fromEach hd,
        List.mem_singleton, exists_eq_left]
      rfl

end Search

end CssSieve
