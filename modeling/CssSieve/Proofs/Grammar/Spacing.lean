import CssSieve.Proofs.Grammar.Advancing
import CssSieve.Proofs.Property.Leaves
import CssSieve.Proofs.Value.Spacing

/-!
# White space makes no difference

A grammar that does not ask for white space, nor for its absence, cannot tell two lists of values
apart that differ in white space only. A span `Overlooks` white space if it can be followed from a
list to another one whenever the same lies ahead: it then stops where the same lies ahead again.
What lies ahead takes the place of the position, which white space moves. Two ends that differ
never have the same ahead of them, since every end is the start or lies behind a further value;
repetitions and groups in any order rely on that when they ask whether anything was consumed.
-/

namespace CssSieve

/-- The span passes over white space: it moves on by consuming values, and what it does in one list
it does in every other, as long as the same lies ahead. -/
structure Span.Overlooks (span : Span) : Prop where
  moves : ∀ {values : List Value} {start e : Nat}, span values start e →
    e = start ∨ (ahead values e).length < (ahead values start).length
  follows : ∀ {xs ys : List Value} {i j e : Nat}, ahead xs i = ahead ys j → span xs i e →
    ∃ f, span ys j f ∧ ahead xs e = ahead ys f

namespace Span

variable {span part : Span} {parts : List Span} {xs ys values : List Value} {i j e start : Nat}

theorem Overlooks.eq_of_ahead (h : span.Overlooks) (he : span values start e)
    (same : ahead values e = ahead values start) : e = start := by
  rcases h.moves he with stays | moved
  · exact stays
  · rw [same] at moved
    exact absurd moved (Nat.lt_irrefl _)

/-- What is matched in no values at all is so in every list with the same ahead. -/
theorem Overlooks.stays (h : span.Overlooks) (same : ahead xs i = ahead ys j)
    (he : span xs i i) : span ys j j := by
  obtain ⟨f, hf, after⟩ := h.follows same he
  obtain rfl := h.eq_of_ahead hf (after.symm.trans same)
  exact hf

/-! ## Single values -/

theorem overlooks_one {kind : Value → Prop}
    (blind : ∀ v w : Value, v.unspaced = w.unspaced → kind v → kind w) : (one kind).Overlooks := by
  constructor
  · rintro values start e ⟨i, gap, ⟨v, found, -⟩, rfl⟩
    right
    rw [ahead_of_gap_value gap found, List.length_cons]
    exact Nat.lt_succ_self _
  · rintro xs ys i j e same ⟨p, gap, ⟨v, found, accepted⟩, rfl⟩
    rw [ahead_of_gap_value gap found] at same
    obtain ⟨q, w, gap', found', alike, after⟩ := exists_value_of_ahead same.symm
    exact ⟨q + 1, ⟨q, gap', ⟨w, found', blind v w alike.symm accepted⟩, rfl⟩, after.symm⟩

/-- A test that only tokens pass. -/
theorem overlooks_one_token {accepts : Value → Bool}
    (tokens : ∀ v, accepts v → v.token?.isSome) : (one (accepts ·)).Overlooks := by
  apply overlooks_one
  intro v w same accepted
  rwa [Value.eq_of_unspaced_eq same (tokens v accepted)]

theorem overlooks_comma : comma.Overlooks := by
  apply overlooks_one_token
  intro v isComma
  cases v <;> first | rfl | cases isComma

theorem Overlooks.covers (h : span.Overlooks) (forward : span.Forward)
    (same : Value.unspacedAll xs = Value.unspacedAll ys) (covered : span.Covers xs) :
    span.Covers ys := by
  have within {values : List Value} {e : Nat} (he : span values 0 e) : e ≤ values.length := by
    rcases forward he with rfl | ⟨-, le⟩
    · exact Nat.zero_le _
    · exact le
  have outset : ahead xs 0 = ahead ys 0 := same
  obtain ⟨e, he, rest⟩ := covered
  obtain ⟨f, hf, after⟩ := h.follows outset he
  refine ⟨f, hf, ?_⟩
  rw [gap_length_iff (within hf), ← after]
  exact (gap_length_iff (within he)).mp rest

theorem overlooks_group {inside : Value → Option (List Value)} {contents : Span}
    (opens : ∀ v w : Value, v.unspaced = w.unspaced →
      Option.Rel (fun vs ws => Value.unspacedAll vs = Value.unspacedAll ws) (inside v) (inside w))
    (h : contents.Overlooks) (forward : contents.Forward) :
    (group inside contents).Overlooks := by
  apply overlooks_one
  rintro v w same ⟨vs, opened, covered⟩
  have both := opens v w same
  rw [Option.mem_def] at opened
  rw [opened] at both
  cases opened' : inside w with
  | none =>
      rw [opened'] at both
      cases both
  | some ws =>
      rw [opened'] at both
      cases both with
      | some alike => exact ⟨ws, rfl, h.covers forward alike covered⟩

/-! ## Combinations -/

theorem overlooks_oneOf (h : ∀ part ∈ parts, part.Overlooks) : (oneOf parts).Overlooks := by
  constructor
  · rintro values start e ⟨part, listed, he⟩
    exact (h part listed).moves he
  · rintro xs ys i j e same ⟨part, listed, he⟩
    obtain ⟨f, hf, after⟩ := (h part listed).follows same he
    exact ⟨f, ⟨part, listed, hf⟩, after⟩

theorem overlooks_empty : Overlooks fun _ start e => e = start := by
  constructor
  · intro values start e he
    exact .inl he
  · rintro xs ys i j e same rfl
    exact ⟨j, rfl, same⟩

/-- One span behind another. -/
theorem Overlooks.trans (h : span.Overlooks) (k : part.Overlooks) :
    Overlooks fun values start e => ∃ m, span values start m ∧ part values m e := by
  constructor
  · rintro values start e ⟨m, first, second⟩
    rcases h.moves first with rfl | closer
    · exact k.moves second
    · rcases k.moves second with rfl | further
      · exact .inr closer
      · exact .inr (Nat.lt_trans further closer)
  · rintro xs ys i j e same ⟨m, first, second⟩
    obtain ⟨n, first', between⟩ := h.follows same first
    obtain ⟨f, second', after⟩ := k.follows between second
    exact ⟨f, ⟨n, first', second'⟩, after⟩

theorem Overlooks.afterGap (h : span.Overlooks) (commas : Bool) :
    (afterGap commas span).Overlooks := by
  cases commas with
  | false => exact h
  | true => exact overlooks_comma.trans h

theorem overlooks_andThen (h : ∀ part ∈ parts, part.Overlooks) (commas : Bool) :
    (andThen commas parts).Overlooks := by
  induction parts with
  | nil => exact overlooks_empty
  | cons part rest ih =>
      obtain ⟨first, others⟩ := List.forall_mem_cons.mp h
      exact (first.afterGap commas).trans (ih others)

theorem overlooks_inOrder (h : ∀ part ∈ parts, part.Overlooks) (commas : Bool) :
    (inOrder commas parts).Overlooks := by
  cases parts with
  | nil => exact overlooks_empty
  | cons part rest =>
      obtain ⟨first, others⟩ := List.forall_mem_cons.mp h
      exact first.trans (overlooks_andThen others commas)

/-- Whether anything was consumed shows in what lies ahead. -/
theorem Overlooks.nonempty (h : span.Overlooks) : span.nonempty.Overlooks := by
  constructor
  · rintro values start e ⟨he, -⟩
    exact h.moves he
  · rintro xs ys i j e same ⟨he, moved⟩
    obtain ⟨f, hf, after⟩ := h.follows same he
    refine ⟨f, ⟨hf, ?_⟩, after⟩
    rintro rfl
    exact moved (h.eq_of_ahead he (after.trans same.symm))

theorem overlooks_anyOrder (h : ∀ part ∈ parts, part.Overlooks) (allRequired : Bool) :
    (anyOrder allRequired parts).Overlooks := by
  have used_overlooks (used : List (Fin parts.length)) :
      (inOrder false (used.map fun i => (parts.get i).nonempty)).Overlooks := by
    apply overlooks_inOrder
    intro part listed
    obtain ⟨i, -, rfl⟩ := List.mem_map.mp listed
    exact (h (parts.get i) (List.get_mem parts i)).nonempty
  constructor
  · rintro values start e ⟨used, -, he, -⟩
    exact (used_overlooks used).moves he
  · rintro xs ys i j e same ⟨used, nodup, he, stop⟩
    obtain ⟨f, hf, after⟩ := (used_overlooks used).follows same he
    refine ⟨f, ⟨used, nodup, hf, ?_⟩, after⟩
    cases allRequired with
    | true =>
        intro k unused
        exact (h _ (List.get_mem parts k)).stays after (stop k unused)
    | false =>
        rcases stop with some_used | ⟨part, listed, blank⟩
        · exact .inl some_used
        · exact .inr ⟨part, listed, (h part listed).stays after blank⟩

end Span

namespace Search

variable {m : Multiplier} {part : Search} {xs ys values : List Value} {i j n e start : Nat}

theorem Finds.overlooks {search : Search} {span : Span} (h : search.Finds span)
    (overlooks : span.Overlooks) : search.span.Overlooks := by
  have same : search.span = span := by
    funext values start e
    exact propext (h values start e)
  exact same ▸ overlooks

theorem overlooks_span_of_mem {parts : List Search} (h : ∀ part ∈ parts, part.span.Overlooks) :
    ∀ s ∈ parts.map span, s.Overlooks := by
  intro s hs
  obtain ⟨part, listed, rfl⟩ := List.mem_map.mp hs
  exact h part listed

theorem Climbs.moves (h : part.span.Overlooks) (climbs : Climbs m part values start n e) :
    e = start ∨ (ahead values e).length < (ahead values start).length := by
  induction climbs with
  | start => exact .inl rfl
  | step _ _ more progress ih =>
      right
      have closer := ((h.afterGap _).moves (mem_again_iff.mp more)).resolve_left progress
      rcases ih with rfl | further
      · exact closer
      · exact Nat.lt_trans closer further

theorem Climbs.follows (h : part.span.Overlooks) (same : ahead xs i = ahead ys j)
    (climbs : Climbs m part xs i n e) : ∃ f, Climbs m part ys j n f ∧ ahead xs e = ahead ys f := by
  induction climbs with
  | start => exact ⟨j, .start, same⟩
  | step _ allowed more progress ih =>
      obtain ⟨q, reached, between⟩ := ih
      have moved : (Span.afterGap _ part.span).nonempty xs _ _ := ⟨mem_again_iff.mp more, progress⟩
      obtain ⟨f, ⟨more', progress'⟩, after⟩ := (h.afterGap _).nonempty.follows between moved
      exact ⟨f, .step reached allowed (mem_again_iff.mpr more') progress', after⟩

theorem overlooks_repeated (h : part.span.Overlooks) (forward : part.Forward) (m : Multiplier) :
    (repeated m part).span.Overlooks := by
  constructor
  · intro values start e he
    rcases (mem_ends_repeated_iff forward).mp he with ⟨n, -, climbs⟩ | ⟨n, -, climbs, -⟩
    · exact climbs.moves h
    · exact climbs.moves h
  · intro xs ys i j e same he
    rcases (mem_ends_repeated_iff forward).mp he with
      ⟨n, least, climbs⟩ | ⟨n, allowed, climbs, blank⟩
    · obtain ⟨f, climbs', after⟩ := climbs.follows h same
      exact ⟨f, (mem_ends_repeated_iff forward).mpr (.inl ⟨n, least, climbs'⟩), after⟩
    · obtain ⟨f, climbs', after⟩ := climbs.follows h same
      have blank' := (h.afterGap _).stays after (mem_again_iff.mp blank)
      exact ⟨f, (mem_ends_repeated_iff forward).mpr
        (.inr ⟨n, allowed, climbs', mem_again_iff.mpr blank'⟩), after⟩

end Search

namespace Grammar

/-- The leaf does not look for white space. -/
def NotSpace : Grammar → Prop
  | whitespace _ | noWhitespace => False
  | _ => True

/-- The grammar asks nowhere for white space, or for its absence. -/
def SpaceFree (g : Grammar) : Prop := g.Leaves NotSpace

instance : Usual NotSpace where
  keyword _ := trivial
  delim _ := trivial
  customProperty := trivial
  anyToken _ := trivial
  integer := trivial
  zero := trivial
  dimension _ := trivial
  customIdent := trivial
  hexColor _ := trivial
  valueIn _ _ _ := trivial

/-! ## Productions for single values -/

theorem argumentsOf?_unspaced (name : String) (v w : Value) (same : v.unspaced = w.unspaced) :
    Option.Rel (fun vs ws => Value.unspacedAll vs = Value.unspacedAll ws) (argumentsOf? name v)
      (argumentsOf? name w) := by
  cases v <;> cases w <;> simp only [Value.unspaced, Value.function.injEq, reduceCtorEq] at same
  case function.function =>
    obtain ⟨rfl, same⟩ := same
    rw [argumentsOf?, argumentsOf?]
    split
    · exact .some same
    · exact .none
  all_goals exact .none

theorem contentsOf?_unspaced (opener : Char) (v w : Value) (same : v.unspaced = w.unspaced) :
    Option.Rel (fun vs ws => Value.unspacedAll vs = Value.unspacedAll ws) (contentsOf? opener v)
      (contentsOf? opener w) := by
  cases v <;> cases w <;> simp only [Value.unspaced, Value.block.injEq, reduceCtorEq] at same
  case block.block =>
    obtain ⟨rfl, same⟩ := same
    rw [contentsOf?, contentsOf?]
    split
    · exact .some same
    · exact .none
  all_goals exact .none

/-! ## All grammars -/

mutual

theorem overlooks_search : (g : Grammar) → g.SpaceFree → (Search.span g.search).Overlooks
  | keyword words, _ =>
      (Search.one_finds (acceptsKeyword words)).overlooks
        (Span.overlooks_one_token token_of_acceptsKeyword)
  | token kind test, _ =>
      (Search.one_finds (acceptsToken kind test)).overlooks
        (Span.overlooks_one_token token_of_acceptsToken)
  | customProperty, _ =>
      (Search.one_finds acceptsCustomProperty).overlooks
        (Span.overlooks_one_token token_of_acceptsCustomProperty)
  | delim chars, _ =>
      (Search.one_finds (acceptsDelim chars)).overlooks
        (Span.overlooks_one_token token_of_acceptsDelim)
  | whitespace _, free | noWhitespace, free => free.elim
  | function name g, free =>
      (Search.group_finds (argumentsOf? name) (.arguments name)
        (Search.finds_span g.search)).overlooks
        (Span.overlooks_group (argumentsOf?_unspaced name) (overlooks_search g free)
          (forward_search g).span)
  | block opener g, free =>
      (Search.group_finds (contentsOf? opener) (.contents opener)
        (Search.finds_span g.search)).overlooks
        (Span.overlooks_group (contentsOf?_unspaced opener) (overlooks_search g free)
          (forward_search g).span)
  | oneOf gs, free =>
      (Search.oneOf_finds (Search.findsAll_span _)).overlooks
        (Span.overlooks_oneOf (Search.overlooks_span_of_mem (overlooks_searches gs free)))
  | inOrder commas gs, free =>
      (Search.inOrder_finds (Search.findsAll_span _) commas).overlooks
        (Span.overlooks_inOrder (Search.overlooks_span_of_mem (overlooks_searches gs free)) commas)
  | repeated m g, free =>
      Search.overlooks_repeated (overlooks_search g free) (forward_search g) m
  | anyOrder all gs, free =>
      (Search.anyOrder_finds (Search.findsAll_span _) all).overlooks
        (Span.overlooks_anyOrder (Search.overlooks_span_of_mem (overlooks_searches gs free)) all)

theorem overlooks_searches : (gs : List Grammar) → allLeaves NotSpace gs →
    ∀ part ∈ searches gs, part.span.Overlooks
  | [], _ => by simp [searches]
  | g :: gs, free => by
      intro part listed
      rcases List.mem_cons.mp listed with rfl | listed
      · exact overlooks_search g free.1
      · exact overlooks_searches gs free.2 part listed

end

theorem SpaceFree.matchesAll_congr {g : Grammar} (free : g.SpaceFree) {xs ys : List Value}
    (same : Value.unspacedAll xs = Value.unspacedAll ys) : g.matchesAll xs = g.matchesAll ys := by
  have overlooks := overlooks_search g free
  have forward : (Search.span g.search).Forward := (forward_search g).span
  rw [Bool.eq_iff_iff, matchesAll_iff_covers_span, matchesAll_iff_covers_span]
  constructor
  · exact overlooks.covers forward same
  · exact overlooks.covers forward same.symm

end Grammar

open Grammar

/-! ## The properties of style rules -/

/-- **White space makes no difference** to a grammar without leaves that look for it: it gives the
same answer on two lists that are equal once all white space is deleted from them, at every depth.
The standard and the extended properties are such grammars, if the basic data types are, as those
of this library are. -/
theorem matchesAll_of_same_unspaced :
    (∀ g : Grammar, g.SpaceFree → ∀ xs ys : List Value,
      Value.unspacedAll xs = Value.unspacedAll ys → g.matchesAll xs = g.matchesAll ys) ∧
      (∀ p : Primitives, p.MadeOf NotSpace → ∀ name,
        (∀ g ∈ (Property.standard p).get? name, g.SpaceFree) ∧
          ∀ g ∈ (Property.extended p).get? name, g.SpaceFree) ∧
      Primitives.standard.MadeOf NotSpace ∧ Primitives.extended.MadeOf NotSpace := by
  refine ⟨?_, ?_, inferInstance, inferInstance⟩
  · intro g free xs ys same
    exact free.matchesAll_congr same
  · intro p made name
    exact ⟨Property.madeOf_standard.leaves name, Property.madeOf_extended.leaves name⟩

/-- A list of images with white space around a comma and inside a function, and without it. -/
theorem matchesAll_of_same_unspaced_images :
    let spaced : List Value :=
      [.token .whitespace, .function "url" [.token .whitespace, .token (.string "a.png")],
        .token .whitespace, .token .comma, .token .whitespace, .token (.ident "none")]
    let tight : List Value :=
      [.function "url" [.token (.string "a.png")], .token .comma, .token (.ident "none")]
    Value.unspacedAll spaced = Value.unspacedAll tight ∧
      ∃ g, (Property.standard .standard).get? "background-image" = some g ∧ g.SpaceFree ∧
        g.matchesAll tight ∧ g.matchesAll spaced := by
  intro spaced tight
  have same : Value.unspacedAll spaced = Value.unspacedAll tight := rfl
  obtain ⟨ignores, covered, made, -⟩ := matchesAll_of_same_unspaced
  have known : (Property.standard .standard).get? "background-image" =
      some (commaList (Property.backgroundImage .standard) 1) :=
    Property.get?_standard_of_mem (by simp [Property.standardEntries, Property.backgrounds])
  have free := (covered .standard made "background-image").1 _ known
  have matched : (commaList (Property.backgroundImage .standard) 1).matchesAll tight := by
    decide +kernel
  refine ⟨same, _, known, free, matched, ?_⟩
  rw [ignores _ free spaced tight same]
  exact matched

end CssSieve
