import CssSieve.Proofs.Grammar.Consuming
import CssSieve.Proofs.Grammar.Slicing

/-!
# Lists are split at their commas

A list with commas between its items is matched where it is split at its commas and every piece is
an item by itself. This needs an item that consumes something and has no comma in it, those inside
functions and blocks apart. The first item then ends in front of the first comma, where it is
matched as in a list of its own, and what stands behind that comma is a list with one item less.
-/

namespace CssSieve

/-- Anything but a comma. -/
def Value.NoComma (v : Value) : Prop := ¬v.isComma

theorem Value.noComma_iff {v : Value} : v.NoComma ↔ v.isComma = false := by simp [NoComma]

theorem Value.isComma_iff {v : Value} : v.isComma ↔ v = .token .comma := by
  constructor
  · intro h
    cases v with
    | token t => cases t <;> first | rfl | cases h
    | function | block => cases h
  · rintro rfl
    rfl

theorem Value.not_isWhitespace_of_isComma {v : Value} (h : v.isComma) : ¬v.isWhitespace := by
  rw [Value.isComma_iff.mp h]
  decide

/-- The lists of values between the commas of a list. -/
def pieces (values : List Value) : List (List Value) := values.splitOnP Value.isComma

/-- A list is one piece, or is taken apart at its first comma. -/
theorem pieces_cases (values : List Value) :
    (∀ v ∈ values, v.NoComma) ∧ pieces values = [values] ∨
      ∃ xs c ys, (∀ v ∈ xs, v.NoComma) ∧ c.isComma ∧ values = xs ++ c :: ys ∧
        pieces values = xs :: pieces ys := by
  cases found : values.find? Value.isComma with
  | none =>
      have none_inside : ∀ v ∈ values, v.NoComma := by simpa [Value.noComma_iff] using found
      exact Or.inl ⟨none_inside, List.splitOnP_eq_singleton (by simpa using found)⟩
  | some c =>
      obtain ⟨comma, xs, ys, rfl, before⟩ := List.find?_eq_some_iff_append.mp found
      have none_before : ∀ v ∈ xs, v.NoComma := by simpa [Value.noComma_iff] using before
      exact Or.inr ⟨xs, c, ys, none_before, comma, rfl,
        List.splitOnP_append_cons_of_forall_mem (by simpa using before) c comma ys⟩

namespace Span

variable {span : Span} {xs ys values : List Value} {c : Value} {m k : Nat}

/-- The first comma behind a position in front of it. -/
theorem comma_cut_iff (before : ∀ v ∈ xs, v.NoComma) (hc : c.isComma) (le : m ≤ xs.length) :
    comma (xs ++ c :: ys) m k ↔ Gap xs m xs.length ∧ k = xs.length + 1 := by
  have solid := Value.not_isWhitespace_of_isComma hc
  have here : (xs ++ c :: ys)[xs.length]? = some c := by simp
  have gap_before : Gap (xs ++ c :: ys) m xs.length ↔ Gap xs m xs.length :=
    gap_cut solid (Nat.le_refl _)
  rw [← gap_before]
  constructor
  · rintro ⟨i, gap, ⟨v, found, isComma⟩, rfl⟩
    -- no comma stands further in front, and no gap reaches past this one
    obtain rfl : i = xs.length := by
      rcases Nat.lt_trichotomy i xs.length with inside | same | behind
      · rw [getElem?_cut inside] at found
        exact absurd isComma (before v (List.mem_of_getElem? found))
      · exact same
      · obtain ⟨w, hw, white⟩ := gap.2.1 xs.length le behind
        obtain rfl : c = w := Option.some.inj (here.symm.trans hw)
        exact absurd white solid
    exact ⟨gap, rfl⟩
  · rintro ⟨gap, rfl⟩
    exact ⟨xs.length, gap, ⟨c, here, hc⟩, rfl⟩

/-- What takes no commas ends in front of the first of them. -/
theorem Takes.le_of_cut (h : span.Takes Value.NoComma) (hc : c.isComma)
    (found : span (xs ++ c :: ys) 0 m) : m ≤ xs.length := by
  apply Nat.le_of_not_lt
  intro behind
  rcases h found xs.length (Nat.zero_le _) behind c (by simp) with white | noComma
  · exact Value.not_isWhitespace_of_isComma hc white
  · exact noComma hc

/-- A sequence with commas taken apart behind its first part. -/
theorem covers_inOrder_cons_cons {first second : Span} {others : List Span} :
    (inOrder true (first :: second :: others)).Covers values ↔
      ∃ m k, first values 0 m ∧ comma values m k ∧
        ∃ e, inOrder true (second :: others) values k e ∧ Gap values e values.length := by
  constructor
  · rintro ⟨e, ⟨m, head, d, ⟨k, between, next⟩, tail⟩, gap⟩
    exact ⟨m, k, head, between, e, ⟨d, next, tail⟩, gap⟩
  · rintro ⟨m, k, head, between, e, ⟨d, next, tail⟩, gap⟩
    exact ⟨e, ⟨m, head, d, ⟨k, between, next⟩, tail⟩, gap⟩

end Span

namespace Search

variable {part rest : Search} {xs values : List Value} {c : Value}

/-- No match has a comma in it, those inside functions and blocks apart. -/
def CommaFree (search : Search) : Prop :=
  ∀ values start, ∀ e ∈ (search values start).ends,
    ∀ i, start ≤ i → i < e → ∀ v ∈ values[i]?, ¬v.isComma

theorem commaFree_iff {search : Search} :
    search.CommaFree ↔ search.span.Takes Value.NoComma := by
  constructor
  · intro h values start e he i low high v found
    exact Or.inr (h values start e he i low high v found)
  · intro h values start e he i low high v found
    rcases h he i low high v found with white | noComma
    · exact fun comma => Value.not_isWhitespace_of_isComma comma white
    · exact noComma

/-- **The first comma is taken** by the sequence: what stands in front of it is the first part by
itself, and what stands behind it is the rest by itself. -/
theorem covers_cut_iff (ahead : rest.LooksAhead) (further : part.span.LooksNoFurther)
    (takes : part.span.Takes Value.NoComma) (before : ∀ v ∈ xs, v.NoComma) (hc : c.isComma)
    (ys : List Value) :
    (∃ m k, part.span (xs ++ c :: ys) 0 m ∧ Span.comma (xs ++ c :: ys) m k ∧
        ∃ e, rest.span (xs ++ c :: ys) k e ∧ Gap (xs ++ c :: ys) e (xs ++ c :: ys).length) ↔
      part.span.Covers xs ∧ rest.span.Covers ys := by
  have solid := Value.not_isWhitespace_of_isComma hc
  have behind := ahead.covers_append (xs ++ [c]) ys
  simp only [List.append_assoc, List.singleton_append, List.length_append,
    List.length_singleton] at behind
  constructor
  · rintro ⟨m, k, first, comma, others⟩
    have le := takes.le_of_cut hc first
    obtain ⟨gap, rfl⟩ := (Span.comma_cut_iff before hc le).mp comma
    exact ⟨⟨m, (further solid le).mp first, gap⟩, behind.mp (by simpa using others)⟩
  · rintro ⟨⟨m, first, gap⟩, others⟩
    have le := gap.1
    exact ⟨m, xs.length + 1, (further solid le).mpr first,
      (Span.comma_cut_iff before hc le).mpr ⟨gap, rfl⟩, by simpa using behind.mpr others⟩

/-- A part by itself covers no more than one piece. -/
theorem covers_iff_one_piece (takes : part.span.Takes Value.NoComma) (values : List Value) :
    part.span.Covers values ↔
      (pieces values).length = 1 ∧ ∀ piece ∈ pieces values, part.span.Covers piece := by
  rcases pieces_cases values with ⟨-, split⟩ | ⟨xs, c, ys, -, hc, rfl, split⟩
  · simp [split]
  · have more : pieces ys ≠ [] := List.splitOnP_ne_nil _ _
    have uncovered : ¬part.span.Covers (xs ++ c :: ys) := by
      intro covered
      rcases takes.of_covers covered c (by simp) with white | noComma
      · exact Value.not_isWhitespace_of_isComma hc white
      · exact noComma hc
    simp [split, uncovered, more]

theorem span_inOrder_replicate (part : Search) (n : Nat) :
    (inOrder true (List.replicate n part)).span =
      Span.inOrder true (List.replicate n part.span) := by
  funext values start e
  rw [← List.map_replicate]
  exact propext (inOrder_finds (findsAll_span _) true values start e)

theorem inOrder_replicate_looksAhead (ahead : part.LooksAhead) (n : Nat) :
    (inOrder true (List.replicate n part)).LooksAhead := by
  apply inOrder_looksAhead
  intro p hp
  rwa [List.eq_of_mem_replicate hp]

/-- So many parts with a comma between neighbours cover the lists with so many pieces that the part
covers each of them. -/
theorem covers_replicate_iff (ahead : part.LooksAhead) (further : part.span.LooksNoFurther)
    (takes : part.span.Takes Value.NoComma) (n : Nat) (values : List Value) :
    (Span.inOrder true (List.replicate (n + 1) part.span)).Covers values ↔
      (pieces values).length = n + 1 ∧ ∀ piece ∈ pieces values, part.span.Covers piece := by
  -- by induction on the number of parts: the first comma takes one part and one piece away
  induction n generalizing values with
  | zero =>
      have lone : Span.inOrder true (List.replicate 1 part.span) = part.span := by
        funext vs start e
        simp [Span.inOrder, Span.andThen]
      rw [lone]
      exact covers_iff_one_piece takes values
  | succ n ih =>
      rcases pieces_cases values with ⟨none_inside, split⟩ | ⟨xs, c, ys, before, hc, rfl, split⟩
      · have uncovered : ¬(Span.inOrder true (List.replicate (n + 2) part.span)).Covers values := by
          rintro ⟨e, sequence, -⟩
          obtain ⟨v, listed, comma⟩ := exists_comma_of_inOrder sequence
          exact none_inside v listed comma
        simp [split, uncovered]
      · have cut := covers_cut_iff (inOrder_replicate_looksAhead ahead (n + 1)) further takes
          before hc ys
        rw [span_inOrder_replicate, ih] at cut
        calc (Span.inOrder true (List.replicate (n + 2) part.span)).Covers (xs ++ c :: ys)
          _ ↔ part.span.Covers xs ∧ (pieces ys).length = n + 1 ∧
                ∀ piece ∈ pieces ys, part.span.Covers piece := by
              rw [← cut]
              exact Span.covers_inOrder_cons_cons
          _ ↔ _ := by
              simp only [split, List.length_cons, List.forall_mem_cons, Nat.add_right_cancel_iff]
              exact and_left_comm

end Search

/-- **A list is split at its commas**, if its items consume something and have no comma. -/
theorem Grammar.matchesAll_commas_iff {g : Grammar} {least : Nat} {greatest : Option Nat}
    (advances : Search.Advances g.search) (free : Search.CommaFree g.search)
    (some_required : 1 ≤ least) (values : List Value) :
    (repeated ⟨least, greatest, true⟩ g).matchesAll values ↔
      (least ≤ (pieces values).length ∧ ∀ n ∈ greatest, (pieces values).length ≤ n) ∧
        ∀ piece ∈ pieces values, g.matchesAll piece := by
  have covers := Search.covers_replicate_iff (looksAhead_search g) (looksNoFurther_search g)
    (Search.commaFree_iff.mp free)
  have finds : Search.Finds (repeated ⟨least, greatest, true⟩ g).search
      (Span.repeated ⟨least, greatest, true⟩ (Search.span g.search)) :=
    Search.repeated_finds (Search.finds_span g.search) (forward_search g).span advances
  rw [matchesAll, Search.matchesAll_iff finds]
  simp only [matchesAll_iff_covers_span]
  constructor
  · rintro ⟨e, ⟨count, enough, allowed, sequence⟩, gap⟩
    have some_part : 1 ≤ count := Nat.le_trans some_required enough
    obtain ⟨n, rfl⟩ : ∃ n, count = n + 1 := Nat.exists_eq_add_of_le' some_part
    obtain ⟨counted, each⟩ := (covers n values).mp ⟨e, sequence, gap⟩
    rw [counted]
    exact ⟨⟨enough, allowed⟩, each⟩
  · rintro ⟨⟨enough, allowed⟩, each⟩
    have some_piece : 1 ≤ (pieces values).length := Nat.le_trans some_required enough
    obtain ⟨n, counted⟩ : ∃ n, (pieces values).length = n + 1 :=
      Nat.exists_eq_add_of_le' some_piece
    rw [counted] at enough allowed
    obtain ⟨e, sequence, gap⟩ := (covers n values).mpr ⟨counted, each⟩
    exact ⟨e, ⟨n + 1, enough, allowed, sequence⟩, gap⟩

namespace Grammar

variable {g : Grammar} {gs : List Grammar}

theorem matchesAll_commaList_iff (advances : Search.Advances g.search)
    (free : g.Takes Value.NoComma) (values : List Value) :
    (commaList g 1).matchesAll values ↔ ∀ piece ∈ pieces values, g.matchesAll piece := by
  have some_piece : 1 ≤ (pieces values).length :=
    List.length_pos_iff.mpr (List.splitOnP_ne_nil _ values)
  have commaFree : Search.CommaFree g.search := Search.commaFree_iff.mpr (takes_search g free)
  rw [commaList, matchesAll_commas_iff advances commaFree (Nat.le_refl 1)]
  simp [some_piece]

/-! ## Productions without commas -/

@[simp] theorem noComma_keyword (words : List String) : (keyword words).Takes Value.NoComma := by
  intro v _ accepted comma
  rw [Value.isComma_iff.mp comma] at accepted
  cases accepted

@[simp] theorem noComma_delim (chars : List Char) : (delim chars).Takes Value.NoComma := by
  intro v _ accepted comma
  rw [Value.isComma_iff.mp comma] at accepted
  cases accepted

theorem noComma_token {kind : TokenKind} (other : kind ≠ .comma) (test : Option (Token → Bool)) :
    (token kind test).Takes Value.NoComma := by
  intro v _ accepted comma
  rw [Value.isComma_iff.mp comma, acceptsToken, Bool.and_eq_true, beq_iff_eq] at accepted
  exact other accepted.1.symm

@[simp] theorem noComma_function (name : String) : (function name g).Takes Value.NoComma := by
  rintro v - ⟨vs, inside, -⟩ comma
  rw [Value.isComma_iff.mp comma] at inside
  cases inside

@[simp] theorem noComma_block (opener : Char) : (block opener g).Takes Value.NoComma := by
  rintro v - ⟨vs, inside, -⟩ comma
  rw [Value.isComma_iff.mp comma] at inside
  cases inside

/-! ## Productions that consume something -/

@[simp] theorem advances_token (kind : TokenKind) (test : Option (Token → Bool)) :
    Search.Advances (token kind test).search :=
  Search.advances_one _

@[simp] theorem advances_delim (chars : List Char) : Search.Advances (delim chars).search :=
  Search.advances_one _

@[simp] theorem advances_block (opener : Char) : Search.Advances (block opener g).search :=
  Search.advances_of_finds_one (block_finds opener g)

@[simp] theorem advances_oneOf (h : ∀ g ∈ gs, Search.Advances g.search) :
    Search.Advances (oneOf gs).search := by
  apply Search.advances_oneOf
  rw [searches_eq_map]
  exact List.forall_mem_map.mpr h

/-- A sequence consumes what its first part does. -/
@[simp] theorem advances_seq (h : Search.Advances g.search) :
    Search.Advances (seq (g :: gs)).search :=
  Search.advances_inOrder h (forward_search g) (forward_searches gs)

end Grammar

end CssSieve
