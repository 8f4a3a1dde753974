import CssSieve.Proofs.Grammar.Advancing
import CssSieve.Proofs.Grammar.Shifting

/-!
# Searches in a slice of a list

A search looks ahead only, and it looks no further than to the next value: what stands behind a
value other than white space makes no difference to the ends in front of it
(`looksNoFurther_search`). So a grammar finds in a slice of a list what it finds there in the whole
list, if the slice ends where no white space follows.
-/

namespace CssSieve

variable {front back values : List Value} {v : Value} {start pos e : Nat}

/-! ## Gaps and spans in a slice -/

theorem getElem?_cut (inside : pos < front.length) : (front ++ v :: back)[pos]? = front[pos]? :=
  List.getElem?_append_left inside

/-- White space is not looked for behind another value. -/
theorem forall_not_whitespace_cut (solid : ¬v.isWhitespace) (le : e ≤ front.length) :
    (∀ w ∈ (front ++ v :: back)[e]?, ¬w.isWhitespace) ↔ ∀ w ∈ front[e]?, ¬w.isWhitespace := by
  rcases Nat.eq_or_lt_of_le le with rfl | inside
  · simp [solid]
  · rw [getElem?_cut inside]

theorem gap_cut (solid : ¬v.isWhitespace) (le : e ≤ front.length) :
    Gap (front ++ v :: back) start e ↔ Gap front start e := by
  refine and_congr_right fun _ => and_congr ?_ (forall_not_whitespace_cut solid le)
  refine forall_congr' fun i => forall_congr' fun _ => forall_congr' fun before => ?_
  rw [getElem?_cut (Nat.lt_of_lt_of_le before le)]

theorem gap_append :
    Gap (front ++ values) (front.length + start) (front.length + e) ↔ Gap values start e := by
  rw [gap_iff, gap_iff, skipWhitespace_append, Nat.add_left_cancel_iff]

namespace Span

/-- What stands behind a value other than white space makes no difference in front of it. -/
def LooksNoFurther (span : Span) : Prop :=
  ∀ ⦃front back : List Value⦄ ⦃v : Value⦄ ⦃start e : Nat⦄, ¬v.isWhitespace → e ≤ front.length →
    (span (front ++ v :: back) start e ↔ span front start e)

variable {span : Span} {parts : List Span}

theorem looksNoFurther_one (kind : Value → Prop) : (one kind).LooksNoFurther := by
  intro front back v start e solid le
  refine exists_congr fun i => ?_
  constructor
  · rintro ⟨gap, found, rfl⟩
    rw [gap_cut solid (Nat.le_of_succ_le le)] at gap
    rw [getElem?_cut le] at found
    exact ⟨gap, found, rfl⟩
  · rintro ⟨gap, found, rfl⟩
    rw [gap_cut solid (Nat.le_of_succ_le le), getElem?_cut le]
    exact ⟨gap, found, rfl⟩

theorem looksNoFurther_whitespace (required : Bool) : (whitespace required).LooksNoFurther := by
  intro front back v start e solid le
  exact and_congr_left fun _ => gap_cut solid le

theorem looksNoFurther_noWhitespace : noWhitespace.LooksNoFurther := by
  intro front back v start e solid le
  refine and_congr_right fun same => ?_
  subst same
  exact forall_not_whitespace_cut solid le

theorem looksNoFurther_oneOf (h : ∀ part ∈ parts, part.LooksNoFurther) :
    (oneOf parts).LooksNoFurther := by
  intro front back v start e solid le
  exact exists_congr fun part => and_congr_right fun hpart => h part hpart solid le

theorem looksNoFurther_empty : LooksNoFurther fun _ start e => e = start := by
  intro front back v start e _ _
  exact Iff.rfl

/-- One span behind another. Where the second ends in front of the value, the first does. -/
theorem LooksNoFurther.trans (h : span.LooksNoFurther) {next : Span} (hn : next.LooksNoFurther)
    (forward : next.Forward) :
    LooksNoFurther fun values start e => ∃ m, span values start m ∧ next values m e := by
  intro front back v start e solid le
  refine exists_congr fun m => ?_
  rw [hn solid le]
  refine and_congr_left fun second => h solid ?_
  have behind := forward second
  omega

theorem LooksNoFurther.afterGap (h : span.LooksNoFurther) (forward : span.Forward)
    (commas : Bool) : (afterGap commas span).LooksNoFurther := by
  cases commas with
  | false => exact h
  | true => exact (looksNoFurther_one _).trans h forward

theorem looksNoFurther_andThen (h : ∀ part ∈ parts, part.LooksNoFurther)
    (forward : ∀ part ∈ parts, part.Forward) (commas : Bool) :
    (andThen commas parts).LooksNoFurther := by
  induction parts with
  | nil => exact looksNoFurther_empty
  | cons part parts ih =>
      obtain ⟨first, others⟩ := List.forall_mem_cons.mp h
      obtain ⟨forward_first, forward_others⟩ := List.forall_mem_cons.mp forward
      exact (first.afterGap forward_first commas).trans (ih others forward_others)
        (forward_andThen forward_others commas)

theorem looksNoFurther_inOrder (h : ∀ part ∈ parts, part.LooksNoFurther)
    (forward : ∀ part ∈ parts, part.Forward) (commas : Bool) :
    (inOrder commas parts).LooksNoFurther := by
  cases parts with
  | nil => exact looksNoFurther_empty
  | cons part parts =>
      obtain ⟨first, others⟩ := List.forall_mem_cons.mp h
      obtain ⟨-, forward_others⟩ := List.forall_mem_cons.mp forward
      exact first.trans (looksNoFurther_andThen others forward_others commas)
        (forward_andThen forward_others commas)

theorem LooksNoFurther.nonempty (h : span.LooksNoFurther) : span.nonempty.LooksNoFurther := by
  intro front back v start e solid le
  exact and_congr_left fun _ => h solid le

theorem looksNoFurther_anyOrder (h : ∀ part ∈ parts, part.LooksNoFurther)
    (forward : ∀ part ∈ parts, part.Forward) (allRequired : Bool) :
    (anyOrder allRequired parts).LooksNoFurther := by
  intro front back v start e solid le
  have blank (i : Fin parts.length) :
      parts.get i (front ++ v :: back) e e ↔ parts.get i front e e :=
    h _ (List.get_mem parts i) solid le
  refine exists_congr fun used => and_congr_right fun _ => and_congr ?_ ?_
  · have each : ∀ span ∈ used.map fun i => nonempty (parts.get i), span.LooksNoFurther := by
      intro span hs
      obtain ⟨i, -, rfl⟩ := List.mem_map.mp hs
      exact (h _ (List.get_mem parts i)).nonempty
    refine looksNoFurther_inOrder each ?_ false solid le
    intro span hs values start e he
    obtain ⟨i, -, rfl⟩ := List.mem_map.mp hs
    exact forward _ (List.get_mem parts i) he.1
  · cases allRequired with
    | true => exact forall_congr' fun i => imp_congr_right fun _ => blank i
    | false =>
        refine or_congr_right (exists_congr fun part => and_congr_right fun hpart => ?_)
        exact h part hpart solid le

end Span

namespace Search

variable {m : Multiplier} {part : Search}

theorem Finds.looksNoFurther {search : Search} {span : Span} (h : search.Finds span)
    (cut : span.LooksNoFurther) : search.span.LooksNoFurther := by
  intro front back v start e solid le
  rw [Search.span, Search.span, h, h]
  exact cut solid le

theorem looksNoFurther_span_of_mem {parts : List Search}
    (h : ∀ part ∈ parts, part.span.LooksNoFurther) :
    ∀ s ∈ parts.map Search.span, s.LooksNoFurther := by
  intro s hs
  obtain ⟨part, hpart, rfl⟩ := List.mem_map.mp hs
  exact h part hpart

theorem mem_again_cut (h : part.span.LooksNoFurther) (forward : part.Forward) {n : Nat}
    (solid : ¬v.isWhitespace) (le : e ≤ front.length) :
    e ∈ again m part (front ++ v :: back) n pos ↔ e ∈ again m part front n pos := by
  rw [mem_again_iff, mem_again_iff]
  exact h.afterGap forward.span _ solid le

/-- Where a list offers all that another one does, up to a bound, what is reached below the bound in
the one is reached in the other. -/
theorem Climbs.offered {xs ys : List Value} {bound n : Nat} (forward : part.Forward)
    (offered : ∀ {n p e}, e ≤ bound → e ∈ again m part xs n p → e ∈ again m part ys n p)
    (climbs : Climbs m part xs start n e) (le : e ≤ bound) : Climbs m part ys start n e := by
  induction climbs with
  | start => exact Climbs.start
  | @step n p e _ allowed more progress ih =>
      -- the position before is below the bound too, since each step moves on
      have further := lt_of_mem_onceMore forward more progress
      exact .step (ih (by omega)) allowed (offered le more) progress

theorem climbs_cut (h : part.span.LooksNoFurther) (forward : part.Forward) {n : Nat}
    (solid : ¬v.isWhitespace) (le : e ≤ front.length) :
    Climbs m part (front ++ v :: back) start n e ↔ Climbs m part front start n e := by
  constructor
  · intro climbs
    exact climbs.offered forward (fun le => (mem_again_cut h forward solid le).mp) le
  · intro climbs
    exact climbs.offered forward (fun le => (mem_again_cut h forward solid le).mpr) le

theorem looksNoFurther_repeated (h : part.span.LooksNoFurther) (forward : part.Forward)
    (m : Multiplier) : (repeated m part).span.LooksNoFurther := by
  intro front back v start e solid le
  rw [Search.span, Search.span, mem_ends_repeated_iff forward, mem_ends_repeated_iff forward]
  simp only [climbs_cut h forward solid le, mem_again_cut h forward solid le]

/-! ## Spans behind other values -/

theorem LooksAhead.span_append {search : Search} (h : search.LooksAhead) :
    search.span (front ++ values) (front.length + start) e ↔
      ∃ d, search.span values start d ∧ front.length + d = e := by
  rw [Search.span, h front values start]
  exact List.mem_map

/-- Behind other values, a list is covered as it is by itself. -/
theorem LooksAhead.covers_append {search : Search} (h : search.LooksAhead)
    (front values : List Value) :
    (∃ e, search.span (front ++ values) front.length e ∧
        Gap (front ++ values) e (front ++ values).length) ↔ search.span.Covers values := by
  have begin : front.length = front.length + 0 := rfl
  rw [begin, List.length_append]
  simp only [h.span_append]
  constructor
  · rintro ⟨_, ⟨d, found, rfl⟩, gap⟩
    exact ⟨d, found, gap_append.mp gap⟩
  · rintro ⟨d, found, gap⟩
    exact ⟨_, ⟨d, found, rfl⟩, gap_append.mpr gap⟩

end Search

namespace Grammar

mutual

/-- **A search looks no further** than to the next value. -/
theorem looksNoFurther_search : (g : Grammar) → (Search.span g.search).LooksNoFurther
  | keyword words =>
      (Search.one_finds (acceptsKeyword words)).looksNoFurther (Span.looksNoFurther_one _)
  | token kind test =>
      (Search.one_finds (acceptsToken kind test)).looksNoFurther (Span.looksNoFurther_one _)
  | customProperty =>
      (Search.one_finds acceptsCustomProperty).looksNoFurther (Span.looksNoFurther_one _)
  | delim chars =>
      (Search.one_finds (acceptsDelim chars)).looksNoFurther (Span.looksNoFurther_one _)
  | whitespace required =>
      (Search.whitespace_finds required).looksNoFurther (Span.looksNoFurther_whitespace required)
  | noWhitespace => Search.noWhitespace_finds.looksNoFurther Span.looksNoFurther_noWhitespace
  | function name g =>
      (Search.group_finds (argumentsOf? name) (.arguments name)
        (Search.finds_span g.search)).looksNoFurther (Span.looksNoFurther_one _)
  | block opener g =>
      (Search.group_finds (contentsOf? opener) (.contents opener)
        (Search.finds_span g.search)).looksNoFurther (Span.looksNoFurther_one _)
  | oneOf gs =>
      (Search.oneOf_finds (Search.findsAll_span _)).looksNoFurther
        (Span.looksNoFurther_oneOf (Search.looksNoFurther_span_of_mem (looksNoFurther_searches gs)))
  | inOrder commas gs =>
      (Search.inOrder_finds (Search.findsAll_span _) commas).looksNoFurther
        (Span.looksNoFurther_inOrder
          (Search.looksNoFurther_span_of_mem (looksNoFurther_searches gs))
          (Search.forward_span_of_mem (forward_searches gs)) commas)
  | repeated m g => Search.looksNoFurther_repeated (looksNoFurther_search g) (forward_search g) m
  | anyOrder all gs =>
      (Search.anyOrder_finds (Search.findsAll_span _) all).looksNoFurther
        (Span.looksNoFurther_anyOrder
          (Search.looksNoFurther_span_of_mem (looksNoFurther_searches gs))
          (Search.forward_span_of_mem (forward_searches gs)) all)

theorem looksNoFurther_searches : (gs : List Grammar) →
    ∀ part ∈ searches gs, part.span.LooksNoFurther
  | [] => by simp [searches]
  | g :: gs => by
      intro part hpart
      rcases List.mem_cons.mp hpart with rfl | hpart
      · exact looksNoFurther_search g
      · exact looksNoFurther_searches gs part hpart

end

end Grammar

end CssSieve
