import CssSieve.Proofs.Grammar.Advancing

/-!
# Commas between repetitions

A list with commas between its items is a repetition whose multiplier asks for commas. Every end
that its search gives is that of a sequence with as many items as the multiplier allows and exactly
one comma between neighbours, but for one: where an item matches nothing at the start, the start is
an end, however many items are required.
-/

namespace CssSieve

namespace Search

variable {m : Multiplier} {part : Search} {values : List Value} {start n e : Nat}

theorem Climbs.allows (climbs : Climbs m part values start n e) :
    ∀ greatest ∈ m.greatest, n ≤ greatest := by
  cases n with
  | zero => exact fun _ _ => Nat.zero_le _
  | succ n => exact Multiplier.allows_iff.mp climbs.allowed

/-- What is reached with some number of repetitions is a sequence of as many parts. -/
theorem Climbs.inOrder (climbs : Climbs m part values start n e) :
    Span.inOrder m.commas (List.replicate n part.span) values start e := by
  induction climbs with
  | start => rfl
  | @step n p e _ _ more _ ih =>
      rw [List.replicate_succ', Span.inOrder_concat, List.isEmpty_replicate]
      exact ⟨p, ih, mem_again_iff.mp more⟩

theorem Climbs.repeated (climbs : Climbs m part values start n e) (least : m.least ≤ n) :
    Span.repeated m part.span values start e :=
  ⟨n, least, climbs.allows, climbs.inOrder⟩

/-- Behind a comma, the next repetition ends further on. -/
theorem not_mem_again_succ (forward : part.Forward) (commas : m.commas) {pos : Nat} :
    pos ∉ again m part values (n + 1) pos := by
  intro blank
  have gap : Span.afterGap true part.span values pos pos := by
    simpa [commas] using mem_again_iff.mp blank
  obtain ⟨p, comma, item⟩ := gap
  have behind := Span.one_advances comma
  have further := forward.span item
  omega

/-- **A list counts its commas**, except where it counts nothing. An end of a repetition with commas
is that of as many parts as allowed, with one comma between neighbours, unless it is the start, the
part matches nothing there and two or more parts are required. Then the start is an end although no
comma was counted. -/
theorem commaSeparated_of_mem_ends (forward : part.Forward) (least : Nat) (greatest : Option Nat)
    (values : List Value) (start : Nat) :
    let ends := (repeated ⟨least, greatest, true⟩ part values start).ends
    (∀ e ∈ ends,
      Span.repeated ⟨least, greatest, true⟩ part.span values start e ∨
        e = start ∧ 2 ≤ least ∧ start ∈ (part values start).ends) ∧
      (start ∈ (part values start).ends → (∀ n ∈ greatest, 1 ≤ n) → start ∈ ends) := by
  intro ends
  constructor
  · intro e he
    rcases (mem_ends_repeated_iff forward).mp he with
      ⟨n, enough, climbs⟩ | ⟨n, allowed, climbs, blank⟩
    · exact Or.inl (climbs.repeated enough)
    · cases n with
      | zero =>
          obtain rfl : e = start := by
            cases climbs
            rfl
          -- a part that matches nothing is one part, which is enough if no more are required
          by_cases few : least ≤ 1
          · refine Or.inl ⟨1, few, Multiplier.allows_iff.mp allowed, e, blank, rfl⟩
          · exact Or.inr ⟨rfl, by omega, blank⟩
      | succ n => exact absurd blank (not_mem_again_succ forward rfl)
  · intro blank allowed
    exact (mem_ends_repeated_iff forward).mpr
      (Or.inr ⟨0, Multiplier.allows_iff.mpr allowed, Climbs.start, blank⟩)

theorem commaSeparated_of_mem_ends_words :
    let part : Search := (Grammar.optional (Grammar.word "a")).search
    let words : List Value := [.token (.ident "a"), .token .comma, .token (.ident "a")]
    part.Forward ∧ Span.repeated ⟨2, some 3, true⟩ part.span words 0 3 ∧
      0 ∈ (repeated ⟨2, some 3, true⟩ part words 0).ends := by
  intro part words
  have forward : part.Forward := Grammar.forward_search _
  obtain ⟨counted, blank⟩ := commaSeparated_of_mem_ends forward 2 (some 3) words 0
  have both := counted 3 (by decide +kernel)
  exact ⟨forward, both.resolve_right (by simp), blank (by decide +kernel) (by simp)⟩

/-- Two items of a list have a comma between them. -/
theorem exists_comma_of_inOrder {first second : Span} {rest : List Span}
    (h : Span.inOrder true (first :: second :: rest) values start e) : ∃ v ∈ values, v.isComma := by
  obtain ⟨_, -, _, ⟨_, ⟨i, -, ⟨v, found, comma⟩, -⟩, -⟩, -⟩ := h
  exact ⟨v, List.mem_of_getElem? found, comma⟩

/-- Of a part that may be missing, two or three are required, with commas between them. No values at
all are taken for that, for the one part that is missing at the start stands for all. -/
theorem missing_part_counts_for_all :
    let part : Search := (Grammar.optional (Grammar.word "a")).search
    ∀ greatest ∈ [some 3, none],
      0 ∈ (repeated ⟨2, greatest, true⟩ part [] 0).ends ∧
        ¬Span.repeated ⟨2, greatest, true⟩ part.span [] 0 0 := by
  intro part greatest listed
  constructor
  · revert greatest
    decide +kernel
  · rintro ⟨count, least, -, sequence⟩
    obtain ⟨k, rfl⟩ : ∃ k, count = k + 2 := Nat.exists_eq_add_of_le' least
    obtain ⟨v, hv, -⟩ := exists_comma_of_inOrder sequence
    cases hv

end Search

end CssSieve
