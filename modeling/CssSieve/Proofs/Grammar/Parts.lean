import CssSieve.Proofs.Grammar.Widening
import Mathlib.Logic.Relation

/-!
# Grammars said by their parts

What alternatives, sequences and repetitions match, each said once by what their parts match.
A repetition without commas is a chain of matches of its part.
-/

namespace CssSieve

namespace Span

variable {parts : List Span}

theorem andThen_eq_inOrder (parts : List Span) : andThen false parts = inOrder false parts := by
  cases parts <;> rfl

end Span

namespace Grammar

variable {g h : Grammar} {gs : List Grammar} {values : List Value} {start e : Nat}

theorem span_oneOf_iff :
    Search.span (oneOf gs).search values start e ↔ ∃ g ∈ gs, Search.span g.search values start e := by
  show e ∈ (Search.oneOf (searches gs) values start).ends ↔ _
  simp [Search.mem_ends_oneOf, searches_eq_map, Search.span]

theorem span_oneOf_pair :
    Search.span (oneOf [g, h]).search values start e ↔
      Search.span g.search values start e ∨ Search.span h.search values start e := by
  simp [span_oneOf_iff]

theorem span_seq (gs : List Grammar) :
    Search.span (seq gs).search = Span.inOrder false ((gs.map search).map Search.span) := by
  funext values start e
  exact propext (Search.inOrder_finds (findsAll_searches gs) false values start e)

theorem span_seq_nil : Search.span (seq []).search values start e ↔ e = start := by
  rw [span_seq]
  exact Iff.rfl

theorem span_seq_cons :
    Search.span (seq (g :: gs)).search values start e ↔
      ∃ m, Search.span g.search values start m ∧ Search.span (seq gs).search values m e := by
  rw [span_seq, span_seq, List.map_cons, List.map_cons, Span.inOrder, Span.andThen_eq_inOrder]

theorem span_seq_pair :
    Search.span (seq [g, h]).search values start e ↔
      ∃ m, Search.span g.search values start m ∧ Search.span h.search values m e := by
  simp [span_seq_cons, span_seq_nil]

/-! ## Repetitions without commas -/

theorem span_optional_iff :
    Search.span (optional g).search values start e ↔
      e = start ∨ Search.span g.search values start e := by
  have reached {n : Nat}
      (climbs : Search.Climbs ⟨0, some 1, false⟩ g.search values start n e) :
      e = start ∨ Search.span g.search values start e := by
    cases climbs with
    | start => exact Or.inl rfl
    | @step n p e before allowed more _ =>
        obtain rfl : n = 0 := by simpa [Multiplier.allows] using allowed
        cases before
        exact Or.inr (Search.mem_again_iff.mp more)
  constructor
  · intro found
    rcases (Search.mem_ends_repeated_iff (forward_search g)).mp found with
      ⟨n, -, climbs⟩ | ⟨n, -, climbs, -⟩
    · exact reached climbs
    · exact reached climbs
  · intro found
    apply (Search.mem_ends_repeated_iff (forward_search g)).mpr
    by_cases same : e = start
    · exact Or.inl ⟨0, Nat.le_refl 0, same ▸ .start⟩
    · have once := found.resolve_left same
      exact Or.inl ⟨1, Nat.zero_le 1, .step .start rfl (Search.mem_again_iff.mpr once) same⟩

/-- An optional part matches what it is a match of, and white space alone. -/
theorem matchesAll_optional_iff_gap :
    (optional g).matchesAll values ↔ Gap values 0 values.length ∨ g.matchesAll values := by
  simp only [matchesAll_iff_covers_span, Span.Covers, span_optional_iff, or_and_right, exists_or,
    exists_eq_left]

/-- What is reached by climbing is reached by a chain of matches. -/
theorem chain_of_climbs {least n : Nat}
    (climbs : Search.Climbs ⟨least, none, false⟩ g.search values start n e) :
    Relation.ReflTransGen (Search.span g.search values) start e := by
  induction climbs with
  | start => exact .refl
  | step _ _ more _ ih => exact ih.tail (Search.mem_again_iff.mp more)

/-- A chain of matches is climbed, matches of nothing left out. -/
theorem climbs_of_chain (least : Nat)
    (chain : Relation.ReflTransGen (Search.span g.search values) start e) :
    ∃ n, Search.Climbs ⟨least, none, false⟩ g.search values start n e := by
  induction chain with
  | refl => exact ⟨0, .start⟩
  | @tail p e _ more ih =>
      obtain ⟨n, climbs⟩ := ih
      by_cases same : e = p
      · exact ⟨n, same ▸ climbs⟩
      · exact ⟨n + 1, .step climbs rfl (Search.mem_again_iff.mpr more) same⟩

theorem span_many_iff :
    Search.span (many g).search values start e ↔
      Relation.ReflTransGen (Search.span g.search values) start e := by
  constructor
  · intro found
    rcases (Search.mem_ends_repeated_iff (forward_search g)).mp found with
      ⟨n, -, climbs⟩ | ⟨n, -, climbs, -⟩
    · exact chain_of_climbs climbs
    · exact chain_of_climbs climbs
  · intro chain
    obtain ⟨n, climbs⟩ := climbs_of_chain 0 chain
    exact (Search.mem_ends_repeated_iff (forward_search g)).mpr (Or.inl ⟨n, Nat.zero_le n, climbs⟩)

theorem span_atLeastOne_iff :
    Search.span (atLeastOne g).search values start e ↔
      Relation.TransGen (Search.span g.search values) start e := by
  constructor
  · intro found
    rcases (Search.mem_ends_repeated_iff (forward_search g)).mp found with
      ⟨n, some_part, climbs⟩ | ⟨n, -, climbs, blank⟩
    · cases climbs with
      | start => exact absurd some_part (by decide)
      | step before _ more _ => exact .tail' (chain_of_climbs before) (Search.mem_again_iff.mp more)
    · exact .tail' (chain_of_climbs climbs) (Search.mem_again_iff.mp blank)
  · intro chain
    apply (Search.mem_ends_repeated_iff (forward_search g)).mpr
    obtain ⟨p, before, last⟩ := Relation.TransGen.tail'_iff.mp chain
    obtain ⟨n, climbs⟩ := climbs_of_chain 1 before
    by_cases same : e = p
    · subst same
      exact Or.inr ⟨n, Multiplier.allows_iff.mpr (by simp), climbs, Search.mem_again_iff.mpr last⟩
    · exact Or.inl ⟨n + 1, Nat.le_add_left 1 n,
        .step climbs rfl (Search.mem_again_iff.mpr last) same⟩

end Grammar

end CssSieve
