import CssSieve.Proofs.Grammar.Adequacy
import CssSieve.Proofs.Grammar.Contract
import CssSieve.Proofs.Grammar.Separating

/-!
# The order of the ends of a repetition

A repetition prefers the ends that are reached with more repetitions. That is so where there is a
greatest count, and also without one as long as no position is reached with two different counts:
the search without a greatest count does not try a position again, so it can miss that the position
is reached with a higher count. What it finds is the same, only the order may differ.
-/

namespace CssSieve

/-! ## First occurrences -/

/-- An entry of a level. -/
def LevelAt (levels : List (List Nat)) (n e : Nat) : Prop := ∃ level ∈ levels[n]?, e ∈ level

theorem levelAt_concat {levels : List (List Nat)} {top : List Nat} {n e : Nat} (he : e ∉ top) :
    LevelAt (levels ++ [top]) n e ↔ LevelAt levels n e := by
  rw [LevelAt, LevelAt, List.getElem?_append]
  split
  next => exact Iff.rfl
  next beyond =>
    have nothing : levels[n]? = none := List.getElem?_eq_none (Nat.le_of_not_lt beyond)
    rw [nothing]
    constructor
    · rintro ⟨level, found, mem⟩
      obtain rfl := List.mem_singleton.mp (List.mem_of_getElem? found)
      exact absurd mem he
    · rintro ⟨level, found, -⟩
      cases found

theorem distinct_append (ds es : List Nat) :
    distinct (ds ++ es) = distinct ds ++ (distinct es).filter (· ∉ ds) := by
  induction ds with
  | nil => simp [distinct]
  | cons d ds ih =>
      rw [List.cons_append, distinct, ih, distinct, List.filter_append, List.filter_filter,
        List.cons_append]
      congr 2
      apply List.filter_congr
      intro e _
      by_cases h : e = d <;> simp [h]

/-- Where levels are listed from the highest down, what comes first stands on a level as high. -/
theorem pairwise_distinct_levels (levels : List (List Nat)) :
    (distinct levels.reverse.flatten).Pairwise fun d e =>
      ∀ n, LevelAt levels n e → ∃ k, n ≤ k ∧ LevelAt levels k d := by
  induction levels using List.reverseRecOn with
  | nil => exact List.Pairwise.nil
  | append_singleton levels top ih =>
      have on_top {d : Nat} (hd : d ∈ distinct top) {n e : Nat}
          (he : LevelAt (levels ++ [top]) n e) : ∃ k, n ≤ k ∧ LevelAt (levels ++ [top]) k d := by
        obtain ⟨level, found, -⟩ := he
        have lt := (List.getElem?_eq_some_iff.mp found).1
        rw [List.length_append, List.length_singleton] at lt
        exact ⟨levels.length, by omega, top, by simp, mem_distinct.mp hd⟩
      rw [List.reverse_append, List.reverse_singleton, List.singleton_append, List.flatten_cons,
        distinct_append, List.pairwise_append]
      refine ⟨?_, ?_, ?_⟩
      · exact (nodup_distinct top).imp_of_mem fun hd _ _ n he => on_top hd he
      · rw [List.pairwise_filter]
        refine ih.imp fun {d e} before hd he n at_n => ?_
        rw [decide_eq_true_eq] at hd he
        obtain ⟨k, le, at_k⟩ := before n ((levelAt_concat he).mp at_n)
        exact ⟨k, le, (levelAt_concat hd).mpr at_k⟩
      · exact fun d hd e _ n he => on_top hd he

/-! ## Counts -/

namespace Span

/-- A number of repetitions that the multiplier allows. -/
def repeatedTimes (m : Multiplier) (part : Span) (count : Nat) : Span := fun values start e =>
  m.least ≤ count ∧ (∀ greatest ∈ m.greatest, count ≤ greatest) ∧
    inOrder m.commas (List.replicate count part) values start e

/-- One position is reached as often as another: the most repetitions that lead to it are no fewer
than those that lead to the other. -/
def AsOften (m : Multiplier) (part : Span) (values : List Value) (start d e : Nat) : Prop :=
  ∀ n, repeatedTimes m part n values start e → ∃ k, n ≤ k ∧ repeatedTimes m part k values start d

/-- Whatever is reached is reached with one number of repetitions. -/
def OneCount (m : Multiplier) (part : Span) (values : List Value) (start : Nat) : Prop :=
  ∀ e n k, repeatedTimes m part n values start e → repeatedTimes m part k values start e → n = k

end Span

namespace Search

variable {m : Multiplier} {part : Search} {values : List Value} {start : Nat}

/-- The search never matches nothing. -/
def Advances (search : Search) : Prop := ∀ values start, start ∉ (search values start).ends

theorem repeatedTimes_iff (forward : part.Forward) (advances : part.Advances) {n e : Nat} :
    Span.repeatedTimes m part.span n values start e ↔
      m.least ≤ n ∧ Climbs m part values start n e := by
  rw [climbs_iff (finds_span part) forward.span advances, Multiplier.allows_iff]
  rfl

theorem Climbs.le_length (forward : part.Forward) {n e : Nat}
    (h : Climbs m part values start n e) : n ≤ values.length := by
  have low := h.add_le forward
  have high := h.forward forward
  omega

theorem blanks_levelsFrom (forward : part.Forward) (advances : part.Advances) :
    (levelsFrom m part values start).blanks = [] := by
  rw [List.eq_nil_iff_forall_not_mem]
  intro p hp
  obtain ⟨n, -, -, blank⟩ := Caught.initial.climbs_of_blank forward hp
  exact Span.ne_of_afterGap forward.span advances (mem_again_iff.mp blank) rfl

theorem ends_repeated_of_advances (forward : part.Forward) (advances : part.Advances) :
    (repeated m part values start).ends =
      distinct ((levelsFrom m part values start).levels.drop m.least).reverse.flatten := by
  rw [ends_repeated, blanks_levelsFrom forward advances, List.append_nil]

/-! ## Levels that leave nothing out -/

section

variable (m part values start)

/-- No position is reached with two different counts, if the count is ever forgotten. -/
def ReachedOnce : Prop :=
  m.greatest = none → ∀ e n k, m.least ≤ n → m.least ≤ k → Climbs m part values start n e →
    Climbs m part values start k e → n = k

/-- The positions tried were reached with smaller counts. -/
def Passed (count : Nat) (tried : List Nat) : Prop :=
  ∀ p ∈ tried, ∃ n, m.least ≤ n ∧ n < count ∧ Climbs m part values start n p

end

theorem Passed.initial : Passed m part values start 0 [] := by
  intro p hp
  cases hp

theorem Passed.next {count : Nat} {tried level : List Nat}
    (passed : Passed m part values start count tried)
    (h : Caught m part values start count tried level) :
    Passed m part values start (count + 1) (remembered m count tried level) := by
  intro p hp
  rcases mem_remembered_cases hp with ht | ⟨least, hl⟩
  · obtain ⟨n, least, lt, hn⟩ := passed p ht
    exact ⟨n, least, Nat.lt_succ_of_lt lt, hn⟩
  · exact ⟨count, least, Nat.lt_succ_self count, h.reached p hl⟩

theorem Caught.not_mem_tried {count : Nat} {tried level : List Nat}
    (h : Caught m part values start count tried level)
    (passed : Passed m part values start count tried) (once : ReachedOnce m part values start)
    {n p : Nat} (le : count ≤ n) (hn : Climbs m part values start n p) : p ∉ tried := by
  intro ht
  obtain ⟨k, least, lt, hk⟩ := passed p ht
  have forgets := h.forgets (List.ne_nil_of_mem ht)
  rw [Multiplier.forgetsCount, Bool.and_eq_true, Option.isNone_iff_eq_none] at forgets
  have same := once forgets.1 p k n least (by omega) hk hn
  omega

/-- If no position is reached twice, each is found on every level that it is on. -/
theorem Caught.at_of_climbs_once (forward : part.Forward) (once : ReachedOnce m part values start)
    {steps count : Nat} {tried level : List Nat} (h : Caught m part values start count tried level)
    (passed : Passed m part values start count tried)
    (room : ∀ p ∈ level, values.length - p < steps) {n e : Nat}
    (he : Climbs m part values start (count + n) e) :
    (climb m part values steps count tried level).At n e := by
  have untried := h.not_mem_tried passed once (Nat.le_add_right count n) he
  induction steps generalizing count tried level n with
  | zero =>
      have no_level : level = [] :=
        List.eq_nil_iff_forall_not_mem.mpr fun p hp => Nat.not_lt_zero _ (room p hp)
      subst no_level
      exact absurd (h.mem_tried (Nat.le_add_right count n) he) untried
  | succ steps ih =>
      cases n with
      | zero => exact at_climb_zero.mpr ((h.kept e he).resolve_right untried)
      | succ n =>
          have lower : count + 1 ≤ count + n + 1 := by omega
          have allowed := Multiplier.allows_of_le he.allowed lower
          have next := h.next forward allowed
          rw [← Nat.add_assoc, Nat.add_right_comm] at he
          exact at_climb_succ.mpr ⟨allowed, ih next (passed.next h)
            (length_sub_lt_of_mem_above forward room) he
            (next.not_mem_tried (passed.next h) once (Nat.le_add_right _ n) he)⟩

theorem fresh_eq_level {count : Nat} {tried level : List Nat}
    (h : Caught m part values start count tried level)
    (passed : Passed m part values start count tried) (once : ReachedOnce m part values start) :
    fresh m count tried level = level := by
  rw [fresh]
  split
  next =>
    rw [List.filter_eq_self]
    intro p hp
    simpa using h.not_mem_tried passed once (Nat.le_refl count) (h.reached p hp)
  next => rfl

/-- A greatest count that no match can reach leaves the levels as they are. -/
theorem levels_climb_bounded (forward : part.Forward) (once : ReachedOnce m part values start)
    (unbounded : m.greatest = none) {bound : Nat} (large : values.length + m.least ≤ bound)
    {steps count : Nat} {tried level : List Nat} (h : Caught m part values start count tried level)
    (passed : Passed m part values start count tried) :
    (climb { m with greatest := some bound } part values steps count [] level).levels =
      (climb m part values steps count tried level).levels := by
  induction steps generalizing count tried level with
  | zero => rfl
  | succ steps ih =>
      have allowed : m.allows (count + 1) := by simp [Multiplier.allows, unbounded]
      have same_fresh : fresh { m with greatest := some bound } count [] level =
          fresh m count tried level := by
        rw [fresh_eq_level h passed once]
        rfl
      have same : above { m with greatest := some bound } part values count [] level =
          above m part values count tried level := by
        rw [above, above, same_fresh]
      rw [climb_succ, climb_succ, if_pos allowed, same]
      dsimp only
      split
      next =>
        split
        next => rfl
        next => exact congrArg (level :: ·) (ih (h.next forward allowed) (passed.next h))
      next refused =>
        -- a level this high can only stand at the end of the list, where nothing goes on
        have nothing : distinct (above m part values count tried level).ends = [] := by
          rw [List.eq_nil_iff_forall_not_mem]
          intro e he
          have climbs := (h.next forward allowed).reached e he
          have short := climbs.le_length forward
          exact refused (by simp [Multiplier.allows]; omega)
        rw [nothing]
        rfl

/-! ## Parts with one end -/

theorem Climbs.exists_below (forward : part.Forward) {n k e : Nat}
    (h : Climbs m part values start k e) (lt : n < k) :
    ∃ p, p < e ∧ Climbs m part values start n p := by
  induction h with
  | start => cases lt
  | @step k p e hp _ more progress ih =>
      have further := (lt_of_mem_onceMore forward more progress).1
      rcases Nat.lt_succ_iff_lt_or_eq.mp lt with lower | rfl
      · obtain ⟨q, before, hq⟩ := ih lower
        exact ⟨q, Nat.lt_trans before further, hq⟩
      · exact ⟨p, further, hp⟩

theorem Climbs.eq_of_single
    (single : ∀ pos, ∀ d ∈ (part values pos).ends, ∀ e ∈ (part values pos).ends, d = e)
    {n d e : Nat} (hd : Climbs m part values start n d) (he : Climbs m part values start n e) :
    d = e := by
  induction n generalizing d e with
  | zero =>
      cases hd
      cases he
      rfl
  | succ n ih =>
      cases hd with
      | @step _ p _ hp _ more_d _ =>
          cases he with
          | @step _ q _ hq _ more_e _ =>
              obtain rfl := ih hp hq
              rw [again, onceMore] at more_d more_e
              cases gap : afterGap? (m.commas && n != 0) values p with
              | none => simp [gap, Outcome.fail] at more_d
              | some pos =>
                  rw [gap] at more_d more_e
                  exact single pos d more_d e more_e

/-- A part with at most one end from every position reaches everything with one count. -/
theorem oneCount_of_single (forward : part.Forward) (advances : part.Advances)
    (single : ∀ pos, ∀ d ∈ (part values pos).ends, ∀ e ∈ (part values pos).ends, d = e) :
    Span.OneCount m part.span values start := by
  intro e n k often_n often_k
  have hn := ((repeatedTimes_iff forward advances).mp often_n).2
  have hk := ((repeatedTimes_iff forward advances).mp often_k).2
  rcases Nat.lt_trichotomy n k with lt | same | lt
  · obtain ⟨p, before, hp⟩ := hk.exists_below forward lt
    exact absurd (hp.eq_of_single single hn) (Nat.ne_of_lt before)
  · exact same
  · obtain ⟨p, before, hp⟩ := hn.exists_below forward lt
    exact absurd (hp.eq_of_single single hk) (Nat.ne_of_lt before)

/-! ## The order -/

theorem room_initial : ∀ p ∈ [start], values.length - p < values.length - start + 1 := by
  intro p hp
  obtain rfl := List.mem_singleton.mp hp
  omega

theorem pairwise_ends_repeated (forward : part.Forward) (advances : part.Advances)
    (once : ReachedOnce m part values start) :
    (repeated m part values start).ends.Pairwise (Span.AsOften m part.span values start) := by
  rw [ends_repeated_of_advances forward advances]
  refine (pairwise_distinct_levels _).imp fun {d e} higher n often => ?_
  obtain ⟨least, climbs⟩ := (repeatedTimes_iff forward advances).mp often
  obtain ⟨i, rfl⟩ := Nat.exists_eq_add_of_le least
  have found : (levelsFrom m part values start).At (m.least + i) e :=
    Caught.initial.at_of_climbs_once forward once Passed.initial room_initial
      (by rwa [Nat.zero_add])
  have dropped : LevelAt ((levelsFrom m part values start).levels.drop m.least) i e := by
    rwa [LevelAt, List.getElem?_drop]
  obtain ⟨k, le, level, at_k, hd⟩ := higher i dropped
  rw [List.getElem?_drop] at at_k
  have reached := Caught.initial.climbs_of_at forward ⟨level, at_k, hd⟩
  rw [Nat.zero_add] at reached
  exact ⟨m.least + k, by omega,
    (repeatedTimes_iff forward advances).mpr ⟨Nat.le_add_right _ _, reached⟩⟩

theorem perm_ends_bounded (forward : part.Forward) (advances : part.Advances)
    (unbounded : m.greatest = none) {bound : Nat} (large : values.length + m.least ≤ bound) :
    (repeated m part values start).ends.Perm
      (repeated { m with greatest := some bound } part values start).ends := by
  rw [List.perm_ext_iff_of_nodup (unrepeated_repeated _ _ _ _) (unrepeated_repeated _ _ _ _)]
  intro e
  rw [repeated_finds (finds_span part) forward.span advances,
    repeated_finds (finds_span part) forward.span advances]
  constructor
  · rintro ⟨n, least, allowed, parts⟩
    have climbs : Climbs m part values start n e :=
      (climbs_iff (finds_span part) forward.span advances).mpr
        ⟨Multiplier.allows_iff.mpr allowed, parts⟩
    have short := climbs.le_length forward
    exact ⟨n, least, by simp; omega, parts⟩
  · rintro ⟨n, least, -, parts⟩
    exact ⟨n, least, by simp [unbounded], parts⟩

theorem reachedOnce_of_oneCount (forward : part.Forward) (advances : part.Advances)
    (h : m.greatest.isSome ∨ Span.OneCount m part.span values start) :
    ReachedOnce m part values start := by
  intro unbounded e n k least_n least_k hn hk
  have one := h.resolve_left (by simp [unbounded])
  exact one e n k ((repeatedTimes_iff forward advances).mpr ⟨least_n, hn⟩)
    ((repeatedTimes_iff forward advances).mpr ⟨least_k, hk⟩)

/-- **Repetitions are greedy.** With a greatest count, or where every position is reached with one
count, an end that is listed before another is reached as often, and the preferred end is reached as
often as any. Without a greatest count the ends are those of a repetition whose greatest count no
match can reach; they stand in the same order where every position is reached with one count. -/
theorem repeated_greedy (forward : part.Forward) (advances : part.Advances) (m : Multiplier)
    (values : List Value) (start : Nat) :
    (m.greatest.isSome ∨ Span.OneCount m part.span values start →
      (repeated m part values start).ends.Pairwise (Span.AsOften m part.span values start) ∧
        ∀ d ∈ (repeated m part).preferred? values start, ∀ e,
          Span.AsOften m part.span values start d e) ∧
      (m.greatest = none → ∀ bound, values.length + m.least ≤ bound →
        let bounded := repeated { m with greatest := some bound } part values start
        (repeated m part values start).ends.Perm bounded.ends ∧
          (Span.OneCount m part.span values start →
            (repeated m part values start).ends = bounded.ends)) := by
  constructor
  · intro counted
    have order := pairwise_ends_repeated forward advances
      (reachedOnce_of_oneCount forward advances counted)
    refine ⟨order, ?_⟩
    intro d preferred e n often
    obtain ⟨rest, ends_eq⟩ := List.head?_eq_some_iff.mp preferred
    have he : e ∈ (repeated m part values start).ends :=
      (repeated_finds (finds_span part) forward.span advances values start e).mpr ⟨n, often⟩
    rw [ends_eq] at he order
    rcases List.mem_cons.mp he with rfl | behind
    · exact ⟨n, Nat.le_refl n, often⟩
    · exact (List.pairwise_cons.mp order).1 e behind n often
  · intro unbounded bound large bounded
    refine ⟨perm_ends_bounded forward advances unbounded large, ?_⟩
    intro counted
    have once := reachedOnce_of_oneCount forward advances (Or.inr counted)
    rw [ends_repeated_of_advances forward advances, ends_repeated_of_advances forward advances,
      levelsFrom, levelsFrom,
      levels_climb_bounded forward once unbounded large Caught.initial Passed.initial]

/-! ## Words -/

theorem advances_one (accepts : Value → Bool) : (one accepts).Advances := by
  intro values start h
  exact Nat.lt_irrefl start (Span.one_advances ((one_finds accepts values start start).mp h)).1

theorem single_one (accepts : Value → Bool) (pos : Nat) :
    ∀ d ∈ (one accepts values pos).ends, ∀ e ∈ (one accepts values pos).ends, d = e := by
  intro d hd e he
  obtain ⟨i, gap_i, -, rfl⟩ := (one_finds accepts values pos d).mp hd
  obtain ⟨j, gap_j, -, rfl⟩ := (one_finds accepts values pos e).mp he
  rw [gap_iff] at gap_i gap_j
  rw [← gap_i, ← gap_j]

theorem repeated_greedy_words :
    let a : Value := .token (.ident "a")
    let word : Search := (Grammar.word "a").search
    word.Forward ∧ word.Advances ∧ Span.OneCount ⟨1, none, false⟩ word.span [a, a, a] 0 ∧
      [3, 2, 1].Pairwise (Span.AsOften ⟨1, none, false⟩ word.span [a, a, a] 0) ∧
      [3, 2, 1] = (repeated ⟨1, some 4, false⟩ word [a, a, a] 0).ends := by
  intro a word
  have forward : word.Forward := Grammar.forward_search _
  have advances : word.Advances := advances_one _
  have once : Span.OneCount ⟨1, none, false⟩ word.span [a, a, a] 0 :=
    oneCount_of_single forward advances (single_one _)
  have ends : (repeated ⟨1, none, false⟩ word [a, a, a] 0).ends = [3, 2, 1] := by decide +kernel
  obtain ⟨greedy, bounded⟩ := repeated_greedy forward advances ⟨1, none, false⟩ [a, a, a] 0
  have order := (greedy (Or.inr once)).1
  have same := (bounded rfl 4 (Nat.le_refl _)).2 once
  rw [ends] at order same
  exact ⟨forward, advances, once, order, same⟩

/-- Without a greatest count, an end can be listed before one that is reached with more repetitions.
The second word is reached with one part and with two, and what lies behind it is not tried again
for the two. -/
theorem fewer_before_more :
    let part : Search :=
      (Grammar.oneOf
        [Grammar.word "a", Grammar.seq [Grammar.word "a", Grammar.word "b"], Grammar.word "b",
          Grammar.word "c"]).search
    let words : List Value := ["a", "b", "c"].map fun w => .token (.ident w)
    part.Advances ∧ (repeated ⟨0, none, false⟩ part words 0).ends = [2, 3, 1, 0] ∧
      (repeated ⟨0, some 3, false⟩ part words 0).ends = [3, 2, 1, 0] ∧
      ¬Span.AsOften ⟨0, none, false⟩ part.span words 0 2 3 := by
  intro part words
  have forward : part.Forward := Grammar.forward_search _
  have advances : part.Advances := by
    intro values start h
    have further (w : String) {pos e : Nat} (found : (Grammar.word w).Matches values pos e) :
        pos < e := (Span.one_advances found).1
    obtain ⟨span, listed, found⟩ :=
      (Grammar.search_finds _ (by simp [Grammar.seq, Grammar.RepeatsAdvance,
        Grammar.allRepeatsAdvance, Grammar.word]) values start start).mp h
    simp only [Grammar.matchesOf, List.mem_cons, List.not_mem_nil, or_false] at listed
    rcases listed with rfl | rfl | rfl | rfl
    · exact Nat.lt_irrefl start (further "a" found)
    · obtain ⟨m, first, e, second, rfl⟩ := found
      exact Nat.lt_irrefl start (Nat.lt_trans (further "a" first) (further "b" second))
    · exact Nat.lt_irrefl start (further "b" found)
    · exact Nat.lt_irrefl start (further "c" found)
  refine ⟨advances, by decide +kernel, by decide +kernel, ?_⟩
  intro often
  have three : Span.repeatedTimes ⟨0, none, false⟩ part.span 3 words 0 3 := by
    have one : Climbs ⟨0, none, false⟩ part words 0 1 1 :=
      .step .start rfl (by decide +kernel) (by decide)
    have two : Climbs ⟨0, none, false⟩ part words 0 2 2 :=
      .step one rfl (by decide +kernel) (by decide)
    exact (repeatedTimes_iff forward advances).mpr
      ⟨Nat.zero_le _, .step two rfl (by decide +kernel) (by decide)⟩
  obtain ⟨k, le, two⟩ := often 3 three
  have climbs := ((repeatedTimes_iff forward advances).mp two).2.add_le forward
  omega

end Search

end CssSieve
