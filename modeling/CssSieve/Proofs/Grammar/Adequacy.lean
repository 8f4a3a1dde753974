import CssSieve.Proofs.Grammar.Climbing
import CssSieve.Proofs.Grammar.Exploring

/-!
# The search of a grammar finds what the grammar matches

The ends that a search gives are those of the matches, neither fewer nor more. It is proved by
induction on the grammar, one production at a time from what the search of each production finds.
Repetitions are the one restriction: what is repeated must consume something.
-/

namespace CssSieve.Grammar

mutual

theorem search_finds : (g : Grammar) → g.RepeatsAdvance → Search.Finds g.search g.Matches
  | keyword words, _ => Search.one_finds (acceptsKeyword words)
  | token kind test, _ => Search.one_finds (acceptsToken kind test)
  | customProperty, _ => Search.one_finds acceptsCustomProperty
  | delim chars, _ => Search.one_finds (acceptsDelim chars)
  | whitespace required, _ => Search.whitespace_finds required
  | noWhitespace, _ => Search.noWhitespace_finds
  | function name g, h =>
      Search.group_finds (argumentsOf? name) (.arguments name) (search_finds g h)
  | block opener g, h =>
      Search.group_finds (contentsOf? opener) (.contents opener) (search_finds g h)
  | oneOf gs, h => Search.oneOf_finds (searches_findsAll gs h)
  | inOrder commas gs, h => Search.inOrder_finds (searches_findsAll gs h) commas
  | repeated _ g, h => Search.repeated_finds (search_finds g h.2) (forward_matches g) h.1
  | anyOrder all gs, h => Search.anyOrder_finds (searches_findsAll gs h) all

theorem searches_findsAll : (gs : List Grammar) → allRepeatsAdvance gs →
    Search.FindsAll (searches gs) (matchesOf gs)
  | [], _ => .nil
  | g :: gs, h => .cons (search_finds g h.1) (searches_findsAll gs h.2)

end

/-- **Soundness and completeness of the search.** The ends found from a position are exactly those
of the matches that begin there. -/
theorem mem_ends_iff_matches (g : Grammar) (h : g.RepeatsAdvance) (values : List Value)
    (start e : Nat) : e ∈ g.ends values start ↔ g.Matches values start e :=
  search_finds g h values start e

/-- A list of two words with a comma between them, read off the ends of the search. -/
theorem commaList_matches_words :
    (commaList (word "a") 1).RepeatsAdvance ∧
      (commaList (word "a") 1).Matches
        [.token (.ident "a"), .token .comma, .token .whitespace, .token (.ident "a")] 0 4 := by
  have advances : (commaList (word "a") 1).RepeatsAdvance := by
    refine ⟨?_, trivial⟩
    intro values start h
    exact Nat.lt_irrefl start (Span.one_advances h).1
  exact ⟨advances, (mem_ends_iff_matches _ advances _ 0 4).mp (by decide +kernel)⟩

theorem matchesAll_iff_covers (g : Grammar) (h : g.RepeatsAdvance) (values : List Value) :
    g.matchesAll values ↔ g.Matches.Covers values :=
  Search.matchesAll_iff (search_finds g h) values

end CssSieve.Grammar
