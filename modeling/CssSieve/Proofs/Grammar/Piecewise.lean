import CssSieve.Proofs.Grammar.Language
import CssSieve.Proofs.Grammar.Slicing
import CssSieve.Proofs.Grammar.Spacing

/-!
# Grammars that judge each value by itself

A grammar is `Piecewise` if each value of a match, white space apart, is a match by itself. Of such
a grammar, a run of any length is matched if each of its values is: the values may be put in another
order, and how the run is cut into matches makes no difference.
-/

namespace CssSieve

variable {values : List Value} {v : Value} {i start e : Nat}

/-! ## Lists without white space -/

theorem unspacedAll_solid (values : List Value) :
    Value.unspacedAll (solid values) = Value.unspacedAll values := by
  induction values with
  | nil => rfl
  | cons v values ih =>
      by_cases white : v.isWhitespace
      · rw [Value.unspacedAll_cons_of_whitespace white, ← ih, solid,
          List.filter_cons_of_neg (by simp [white])]
        rfl
      · rw [Value.unspacedAll_cons_of_not_whitespace white, ← ih, solid,
          List.filter_cons_of_pos (by simp [white]),
          Value.unspacedAll_cons_of_not_whitespace white]
        rfl

theorem gap_solid_iff (none_white : ∀ v ∈ values, ¬v.isWhitespace) :
    Gap values start e ↔ e = start := by
  constructor
  · rintro ⟨le, white, -⟩
    rcases Nat.eq_or_lt_of_le le with same | lt
    · exact same.symm
    · obtain ⟨v, found, isWhite⟩ := white start (Nat.le_refl _) lt
      exact absurd isWhite (none_white v (List.mem_of_getElem? found))
  · rintro rfl
    refine ⟨Nat.le_refl _, fun i low high => absurd high (by omega), ?_⟩
    intro v found
    exact none_white v (List.mem_of_getElem? found)

namespace Grammar

variable {g : Grammar} {gs : List Grammar}

theorem SpaceFree.matchesAll_solid (free : g.SpaceFree) (values : List Value) :
    g.matchesAll (solid values) = g.matchesAll values :=
  free.matchesAll_congr (unspacedAll_solid values)

theorem matchesAll_oneOf_iff : (oneOf gs).matchesAll values ↔ ∃ g ∈ gs, g.matchesAll values := by
  constructor
  · intro matched
    obtain ⟨e, found, gap⟩ := (matchesAll_iff_covers_span _ values).mp matched
    obtain ⟨part, listed, he⟩ := Search.mem_ends_oneOf.mp found
    rw [searches_eq_map] at listed
    obtain ⟨g, hg, rfl⟩ := List.mem_map.mp listed
    exact ⟨g, hg, (matchesAll_iff_covers_span g values).mpr ⟨e, he, gap⟩⟩
  · rintro ⟨g, listed, matched⟩
    exact (within_oneOf_of_mem listed (.refl g)).matchesAll matched

section

variable {kind : Value → Prop} (none_white : ∀ v ∈ values, ¬v.isWhitespace)
include none_white

theorem matchesAll_one_iff (finds : Search.Finds g.search (Span.one kind)) :
    g.matchesAll values ↔ ∃ v, values = [v] ∧ kind v := by
  rw [matchesAll, Search.matchesAll_iff finds]
  simp only [Span.Covers, Span.one, gap_solid_iff none_white]
  constructor
  · rintro ⟨_, ⟨_, rfl, ⟨v, found, accepted⟩, rfl⟩, single⟩
    obtain ⟨w, rfl⟩ := List.length_eq_one_iff.mp single
    obtain rfl : w = v := Option.some.inj found
    exact ⟨w, rfl, accepted⟩
  · rintro ⟨v, rfl, accepted⟩
    exact ⟨1, ⟨0, rfl, ⟨v, rfl, accepted⟩, rfl⟩, rfl⟩

/-- Behind a single value, the rest is matched as a list of its own. -/
theorem matchesAll_seq_one_iff {h : Grammar} (finds : Search.Finds g.search (Span.one kind)) :
    (seq [g, h]).matchesAll values ↔ ∃ v vs, values = v :: vs ∧ kind v ∧ h.matchesAll vs := by
  have behind {v : Value} {vs : List Value} : (∃ e, Search.span h.search (v :: vs) 1 e ∧
      Gap (v :: vs) e (v :: vs).length) ↔ h.matchesAll vs := by
    rw [matchesAll_iff_covers_span]
    exact (looksAhead_search h).covers_append [v] vs
  rw [matchesAll_iff_covers_span]
  simp only [Span.Covers, span_seq_pair]
  constructor
  · rintro ⟨e, ⟨_, single, rest⟩, gap⟩
    obtain ⟨_, before, ⟨v, found, accepted⟩, rfl⟩ := (finds values 0 _).mp single
    obtain rfl := (gap_solid_iff none_white).mp before
    obtain ⟨w, vs, rfl⟩ : ∃ w vs, values = w :: vs :=
      List.exists_cons_of_ne_nil fun empty => by simp [empty] at found
    obtain rfl : w = v := Option.some.inj found
    exact ⟨w, vs, rfl, accepted, behind.mp ⟨e, rest, gap⟩⟩
  · rintro ⟨v, vs, rfl, accepted, matched⟩
    have first : Gap (v :: vs) 0 0 := (gap_solid_iff none_white).mpr rfl
    have single : Search.span g.search (v :: vs) 0 1 :=
      (finds _ 0 1).mpr ⟨0, first, ⟨v, rfl, accepted⟩, rfl⟩
    obtain ⟨e, rest, gap⟩ := behind.mpr matched
    exact ⟨e, ⟨1, single, rest⟩, gap⟩

theorem matchesAll_optional_iff :
    (optional g).matchesAll values ↔ values = [] ∨ g.matchesAll values := by
  rw [matchesAll_optional_iff_gap, gap_solid_iff none_white, List.length_eq_zero_iff]

end

theorem matchesAll_singleton_iff {kind : Value → Prop}
    (finds : Search.Finds g.search (Span.one kind)) (solid_v : ¬v.isWhitespace) :
    g.matchesAll [v] ↔ kind v := by
  rw [matchesAll_one_iff (by simp [solid_v]) finds]
  simp

/-- A value that is a match by itself is one wherever it stands, if no white space follows. -/
theorem span_of_matchesAll_singleton (none_white : ∀ v ∈ values, ¬v.isWhitespace)
    (found : values[i]? = some v) (alone : g.matchesAll [v]) :
    Search.span g.search values i (i + 1) := by
  have solid_v : ¬v.isWhitespace := none_white v (List.mem_of_getElem? found)
  obtain ⟨e, one, gap⟩ := (matchesAll_iff_covers_span g [v]).mp alone
  obtain rfl : e = 1 := ((gap_solid_iff (by simp [solid_v])).mp gap).symm
  obtain ⟨front, back, rfl, rfl⟩ :
      ∃ front back, values = front ++ v :: back ∧ front.length = i := by
    obtain ⟨inside, rfl⟩ := List.getElem?_eq_some_iff.mp found
    exact ⟨values.take i, values.drop (i + 1), by simp, by simp; omega⟩
  have first : Search.span g.search (v :: back) 0 1 := by
    cases back with
    | nil => exact one
    | cons w back =>
        have solid_w : ¬w.isWhitespace := none_white w (by simp)
        have cut : Search.span g.search ([v] ++ w :: back) 0 1 ↔ Search.span g.search [v] 0 1 :=
          looksNoFurther_search g solid_w (Nat.le_refl 1)
        exact cut.mpr one
  exact (looksAhead_search g).span_append.mpr ⟨1, first, rfl⟩

/-! ## Piecewise grammars -/

/-- Each value of a match is a match by itself, white space apart. -/
def Piecewise (g : Grammar) : Prop := g.Takes fun v => g.matchesAll [v]

@[simp] theorem piecewise_keyword (words : List String) : (keyword words).Piecewise :=
  fun _ solid_v => (matchesAll_singleton_iff (keyword_finds words) solid_v).mpr

@[simp] theorem piecewise_token (kind : TokenKind) (test : Option (Token → Bool)) :
    (token kind test).Piecewise :=
  fun _ solid_v => (matchesAll_singleton_iff (token_finds kind test) solid_v).mpr

@[simp] theorem piecewise_function (name : String) : (function name g).Piecewise :=
  fun _ solid_v => (matchesAll_singleton_iff (function_finds name g) solid_v).mpr

theorem Piecewise.takes_of_within {h : Grammar} (piecewise : g.Piecewise) (within : g.Within h) :
    g.Takes fun v => h.matchesAll [v] :=
  Takes.mono (fun _ => within.matchesAll) g piecewise

@[simp] theorem piecewise_oneOf (h : ∀ g ∈ gs, g.Piecewise) : (oneOf gs).Piecewise := by
  apply takes_oneOf.mpr
  intro g listed
  exact (h g listed).takes_of_within (within_oneOf_of_mem listed (.refl g))

/-! ## Runs -/

/-- A run of matches, in a list without white space. -/
theorem Piecewise.span_many_iff (piecewise : g.Piecewise)
    (none_white : ∀ v ∈ values, ¬v.isWhitespace) (le : start ≤ e) (within : e ≤ values.length) :
    Search.span (many g).search values start e ↔
      ∀ i, start ≤ i → i < e → ∀ v ∈ values[i]?, g.matchesAll [v] := by
  constructor
  · intro run i low high v found
    have taken := takes_search (many g) (takes_many.mpr piecewise) run i low high v found
    exact taken.resolve_left (none_white v (List.mem_of_getElem? found))
  · intro each
    -- one repetition for each value, so each moves on by one
    have climbs : ∀ n, start + n ≤ e →
        Search.Climbs ⟨0, none, false⟩ g.search values start n (start + n) := by
      intro n room
      induction n with
      | zero => exact .start
      | succ n ih =>
          have inside : start + n < values.length := by omega
          have found : values[start + n]? = some values[start + n] :=
            List.getElem?_eq_getElem inside
          have alone := each (start + n) (by omega) (by omega) _ found
          have next := span_of_matchesAll_singleton none_white found alone
          exact .step (ih (by omega)) rfl (Search.mem_again_iff.mpr next) (by omega)
    obtain ⟨n, rfl⟩ := Nat.exists_eq_add_of_le le
    exact (Search.mem_ends_repeated_iff (forward_search g)).mpr
      (Or.inl ⟨n, Nat.zero_le n, climbs n (Nat.le_refl _)⟩)

/-- **A run around a value.** Where a grammar of single values is within a piecewise one, a match of
it in a run of the other asks no more than that each value is accepted, and some value by both. -/
theorem Piecewise.matchesAll_around_iff {h : Grammar} {kind : Value → Prop}
    (piecewise : g.Piecewise) (single : h.Piecewise) (within : h.Within g)
    (finds : Search.Finds h.search (Span.one kind)) (none_white : ∀ v ∈ values, ¬v.isWhitespace) :
    (seq [many g, h, many g]).matchesAll values ↔
      (∀ v ∈ values, g.matchesAll [v]) ∧ ∃ v ∈ values, h.matchesAll [v] := by
  have sequence (e : Nat) : Search.span (seq [many g, h, many g]).search values 0 e ↔
      ∃ i, Search.span (many g).search values 0 i ∧
        ∃ k, Search.span h.search values i k ∧ Search.span (many g).search values k e := by
    simp [span_seq, Span.inOrder, Span.andThen, Span.afterGap]
  have run : (many g).Takes fun v => g.matchesAll [v] := takes_many.mpr piecewise
  have takes : (seq [many g, h, many g]).Takes fun v => g.matchesAll [v] := by
    simp [run, single.takes_of_within within]
  constructor
  · intro matched
    have covered := (matchesAll_iff_covers_span _ values).mp matched
    constructor
    · intro v listed
      exact ((takes_search _ takes).of_covers covered v listed).resolve_left (none_white v listed)
    · obtain ⟨e, found, -⟩ := covered
      obtain ⟨i, -, k, one, -⟩ := (sequence e).mp found
      obtain ⟨_, -, ⟨v, found, accepted⟩, -⟩ := (finds values i k).mp one
      have listed := List.mem_of_getElem? found
      exact ⟨v, listed, (matchesAll_singleton_iff finds (none_white v listed)).mpr accepted⟩
  · rintro ⟨each, v, listed, alone⟩
    obtain ⟨i, inside, hi⟩ := List.getElem_of_mem listed
    have found : values[i]? = some v := List.getElem?_eq_some_iff.mpr ⟨inside, hi⟩
    have runs {start e : Nat} (le : start ≤ e) (within : e ≤ values.length) :
        Search.span (many g).search values start e :=
      (piecewise.span_many_iff none_white le within).mpr
        fun _ _ _ w found => each w (List.mem_of_getElem? found)
    have one : Search.span h.search values i (i + 1) :=
      span_of_matchesAll_singleton none_white found alone
    have whole : Search.span (seq [many g, h, many g]).search values 0 values.length :=
      (sequence _).mpr ⟨i, runs (Nat.zero_le i) (Nat.le_of_lt inside), i + 1, one,
        runs inside (Nat.le_refl _)⟩
    exact (matchesAll_iff_covers_span _ values).mpr
      ⟨values.length, whole, (gap_solid_iff none_white).mpr rfl⟩

end Grammar

end CssSieve
