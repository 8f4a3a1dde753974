import CssSieve.Proofs.Grammar.Climbing
import CssSieve.Proofs.Grammar.Exploring

/-!
# Searches move forward

Every end that a grammar is found to have is the start, or lies further on within the list. This
holds for every grammar, also for one whose repetitions can match nothing. What a search finds is a
span like any other, so for most productions it is the fact about spans once more.
-/

namespace CssSieve

namespace Search

/-- The span that a search finds. -/
def span (search : Search) : Span := fun values start e => e ∈ (search values start).ends

theorem finds_span (search : Search) : search.Finds search.span := by
  intro values start e
  exact Iff.rfl

theorem findsAll_span (parts : List Search) : FindsAll parts (parts.map span) := by
  rw [FindsAll, List.forall₂_map_right_iff, List.forall₂_same]
  intro part _
  exact finds_span part

theorem Forward.span {search : Search} (h : search.Forward) : search.span.Forward := by
  intro values start e he
  exact h values start e he

theorem forward_span_of_mem {parts : List Search} (h : ∀ part ∈ parts, part.Forward) :
    ∀ s ∈ parts.map Search.span, s.Forward := by
  intro s hs
  obtain ⟨part, hpart, rfl⟩ := List.mem_map.mp hs
  exact (h part hpart).span

/-- One more repetition is a span of its own. -/
theorem mem_again_iff {m : Multiplier} {part : Search} {values : List Value} {n pos e : Nat} :
    e ∈ again m part values n pos ↔
      Span.afterGap (m.commas && n != 0) part.span values pos e :=
  mem_ends_onceMore (finds_span part)

theorem Climbs.forward {m : Multiplier} {part : Search} (forward : part.Forward)
    {values : List Value} {start n e : Nat} (h : Climbs m part values start n e) :
    e = start ∨ start < e ∧ e ≤ values.length := by
  induction h with
  | start => exact Or.inl rfl
  | step _ _ he progress ih =>
      have further := lt_of_mem_onceMore forward he progress
      omega

theorem forward_repeated {part : Search} (forward : part.Forward) (m : Multiplier) :
    (repeated m part).Forward := by
  intro values start e he
  rcases (mem_ends_repeated_iff forward).mp he with ⟨n, -, climbs⟩ | ⟨n, -, climbs, -⟩
  · exact climbs.forward forward
  · exact climbs.forward forward

end Search

namespace Grammar

theorem matchesAll_iff_covers_span (g : Grammar) (values : List Value) :
    g.matchesAll values ↔ (Search.span g.search).Covers values :=
  Search.matchesAll_iff (Search.finds_span g.search) values

theorem searches_eq_map (gs : List Grammar) : searches gs = gs.map search := by
  induction gs with
  | nil => rfl
  | cons g gs ih => rw [searches, ih, List.map_cons]

mutual

theorem forward_search : (g : Grammar) → Search.Forward g.search
  | keyword words => (Search.one_finds (acceptsKeyword words)).forward (Span.forward_one _)
  | token kind test => (Search.one_finds (acceptsToken kind test)).forward (Span.forward_one _)
  | customProperty => (Search.one_finds acceptsCustomProperty).forward (Span.forward_one _)
  | delim chars => (Search.one_finds (acceptsDelim chars)).forward (Span.forward_one _)
  | whitespace required =>
      (Search.whitespace_finds required).forward (Span.forward_whitespace required)
  | noWhitespace => Search.noWhitespace_finds.forward Span.forward_noWhitespace
  | function name g =>
      (Search.group_finds (argumentsOf? name) (.arguments name) (Search.finds_span g.search)).forward
        (Span.forward_one _)
  | block opener g =>
      (Search.group_finds (contentsOf? opener) (.contents opener) (Search.finds_span g.search)).forward
        (Span.forward_one _)
  | oneOf gs =>
      (Search.oneOf_finds (Search.findsAll_span _)).forward
        (Span.forward_oneOf (Search.forward_span_of_mem (forward_searches gs)))
  | inOrder commas gs =>
      (Search.inOrder_finds (Search.findsAll_span _) commas).forward
        (Span.forward_inOrder (Search.forward_span_of_mem (forward_searches gs)) commas)
  | repeated m g => Search.forward_repeated (forward_search g) m
  | anyOrder all gs =>
      (Search.anyOrder_finds (Search.findsAll_span _) all).forward
        (Span.forward_anyOrder (Search.forward_span_of_mem (forward_searches gs)) all)

theorem forward_searches : (gs : List Grammar) → ∀ part ∈ searches gs, part.Forward
  | [] => by simp [searches]
  | g :: gs => by
      intro part hpart
      rcases List.mem_cons.mp hpart with rfl | hpart
      · exact forward_search g
      · exact forward_searches gs part hpart

end

/-- Every end of a grammar is the start, or lies further on within the list. -/
theorem ends_forward (g : Grammar) {values : List Value} {start e : Nat}
    (h : e ∈ g.ends values start) : e = start ∨ start < e ∧ e ≤ values.length :=
  forward_search g values start e h

end Grammar

end CssSieve
