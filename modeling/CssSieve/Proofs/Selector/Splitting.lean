import CssSieve.Proofs.Grammar.Splitting
import CssSieve.Selector

/-!
# Selector lists are split at their commas

A selector consumes something and has no comma outside of functions and blocks, so a list of
selectors is what its pieces are: one selector each.
-/

namespace CssSieve

namespace Selector

open Grammar

/-! ## The parts of a level -/

section

variable (inner : Option Level)

/-- A simple selector that is no type. -/
def subclass : Grammar :=
  oneOf
    [classSelector, idSelector, attributeSelector, pseudoElement (inner.map (·.compound)),
      pseudoClass (inner.map (·.list)) (inner.map (·.relativeList))]

theorem compound_level : (level inner).compound =
    seq [oneOf [typeSelector, subclass inner], many (seq [noWhitespace, subclass inner])] :=
  rfl

theorem complex_level : (level inner).complex =
    seq [(level inner).compound, many (seq [optional combinator, (level inner).compound])] :=
  rfl

end

/-! ## Selectors have no commas and consume something -/

@[simp] theorem noComma_ident : ident.Takes Value.NoComma := noComma_token (by decide) none

@[simp] theorem noComma_colon : colon.Takes Value.NoComma := noComma_token (by decide) none

@[simp] theorem noComma_idSelector : idSelector.Takes Value.NoComma := noComma_token (by decide) _

theorem noComma_pseudoClass (selectors relative : Option Grammar) :
    (pseudoClass selectors relative).Takes Value.NoComma := by
  cases selectors <;> cases relative <;> simp [pseudoClass]

theorem noComma_pseudoElement (compound : Option Grammar) :
    (pseudoElement compound).Takes Value.NoComma := by
  cases compound <;> simp [pseudoElement]

/-- The selectors of a level have no commas, whatever they take as arguments. -/
theorem noComma_compound (inner : Option Level) : (level inner).compound.Takes Value.NoComma := by
  simp [level, typeSelector, classSelector, attributeSelector, noComma_pseudoClass,
    noComma_pseudoElement]

@[simp] theorem noComma_combinator : combinator.Takes Value.NoComma := by simp [combinator]

theorem noComma_complex (inner : Option Level) : (level inner).complex.Takes Value.NoComma := by
  simp [complex_level, noComma_compound]

/-- The selectors of a level consume something: they begin with a token or a block. -/
theorem advances_compound (inner : Option Level) :
    Search.Advances (level inner).compound.search := by
  have subclasses {compound selectors relative : Option Grammar} :
      ∀ g ∈ [classSelector, idSelector, attributeSelector, pseudoElement compound,
        pseudoClass selectors relative], Search.Advances g.search := by
    simp [classSelector, idSelector, tokenThat, attributeSelector, pseudoElement, pseudoClass,
      touching, colon, anyToken]
  have types : Search.Advances typeSelector.search := by simp [typeSelector, ident, anyToken]
  apply advances_seq
  apply advances_oneOf
  simp only [List.forall_mem_cons, List.not_mem_nil, false_imp_iff, implies_true, and_true]
  exact ⟨types, advances_oneOf subclasses⟩

theorem advances_complex (inner : Option Level) : Search.Advances (level inner).complex.search :=
  advances_seq (advances_compound inner)

/-- **Lists are split at their commas.** Of a grammar that consumes something and has no comma at
the top level of a match, a list is matched if its pieces are as many as allowed and the grammar
matches each of them. So a list of selectors is accepted if each of its pieces is as a selector. -/
theorem matchesAll_iff_pieces :
    (∀ (g : Grammar) (least : Nat) (greatest : Option Nat), 1 ≤ least →
        Search.Advances g.search → Search.CommaFree g.search → ∀ values : List Value,
          ((repeated ⟨least, greatest, true⟩ g).matchesAll values ↔
            (least ≤ (pieces values).length ∧ ∀ n ∈ greatest, (pieces values).length ≤ n) ∧
              ∀ piece ∈ pieces values, g.matchesAll piece)) ∧
      ∀ values : List Value, list.matchesAll values ↔
        ∀ piece ∈ pieces values, complex.matchesAll piece := by
  constructor
  · intro g least greatest some_required advances free values
    exact matchesAll_commas_iff advances free some_required values
  · intro values
    have free : Search.CommaFree complex.search :=
      Search.commaFree_iff.mpr (takes_search complex (noComma_complex _))
    have advances : Search.Advances complex.search := advances_complex _
    have some_piece : 1 ≤ (pieces values).length :=
      List.length_pos_iff.mpr (List.splitOnP_ne_nil _ values)
    have unbounded : list = repeated ⟨1, none, true⟩ complex := rfl
    rw [unbounded, matchesAll_commas_iff advances free (Nat.le_refl 1)]
    simp [some_piece]

theorem matchesAll_iff_pieces_words :
    let a : Value := .token (.ident "a")
    let comma : Value := .token .comma
    let words := repeated ⟨1, some 2, true⟩ (word "a")
    1 ≤ 1 ∧ Search.Advances (word "a").search ∧ Search.CommaFree (word "a").search ∧
      words.matchesAll [a, comma, a] ∧ ¬words.matchesAll [a, comma, a, comma] ∧
      list.matchesAll [a, comma, a] := by
  intro a comma words
  have advances : Search.Advances (word "a").search := Search.advances_one _
  have free : Search.CommaFree (word "a").search :=
    Search.commaFree_iff.mpr (takes_search (word "a") (noComma_keyword ["a"]))
  obtain ⟨grammars, selectors⟩ := matchesAll_iff_pieces
  have split := grammars (word "a") 1 (some 2) (Nat.le_refl 1) advances free
  have two : pieces [a, comma, a] = [[a], [a]] := by rfl
  have three : pieces [a, comma, a, comma] = [[a], [a], []] := by rfl
  refine ⟨Nat.le_refl 1, advances, free, (split _).mpr ?_, ?_, (selectors _).mpr ?_⟩
  · rw [two]
    decide +kernel
  · rw [split, three]
    simp
  · rw [two]
    decide +kernel

end Selector

end CssSieve
