import CssSieve.Proofs.Grammar.Finding
import CssSieve.Proofs.Grammar.Progress

/-!
# Repetitions find sequences of equal spans

A repetition is searched level by level, and positions that were tried before may be left out.
`Climbs` says what can be reached with a number of repetitions when nothing is left out. That the
levels still hold all of it is carried by `Caught`, which accounts for the positions left out: what
can be reached from them is in the level or was tried as well.
-/

namespace CssSieve

theorem Multiplier.allows_iff {m : Multiplier} {count : Nat} :
    m.allows count ↔ ∀ greatest ∈ m.greatest, count ≤ greatest := by
  rw [Multiplier.allows]
  cases m.greatest <;> simp

theorem Multiplier.allows_of_le {m : Multiplier} {n k : Nat} (h : m.allows n) (le : k ≤ n) :
    m.allows k := by
  rw [Multiplier.allows_iff] at h ⊢
  intro greatest hg
  exact Nat.le_trans le (h greatest hg)

/-- An end of a level, counted from the first. -/
def Levels.At (l : Levels) (k e : Nat) : Prop := ∃ level ∈ l.levels[k]?, e ∈ level

namespace Search

/-- Every end is the start, or lies further on within the list. -/
def Forward (search : Search) : Prop :=
  ∀ values start, ∀ e ∈ (search values start).ends, e = start ∨ start < e ∧ e ≤ values.length

theorem Finds.forward {search : Search} {span : Span} (h : search.Finds span)
    (forward : span.Forward) : search.Forward := by
  intro values start e he
  exact forward ((h values start e).mp he)

theorem lt_of_mem_onceMore {part : Search} (forward : part.Forward) {comma : Bool}
    {values : List Value} {pos e : Nat} (h : e ∈ (onceMore part comma values pos).ends)
    (progress : e ≠ pos) : pos < e ∧ e ≤ values.length := by
  rw [onceMore] at h
  split at h
  next p found =>
    have he := forward values p e h
    cases comma with
    | false =>
        have same : pos = p := by simpa [afterGap?] using found
        omega
    | true =>
        have hp := Span.one_advances (afterComma?_eq_some_iff.mp found)
        omega
  next => simp [Outcome.fail] at h

theorem mem_rung_ends {part : Search} {comma : Bool} {values : List Value} {positions : List Nat}
    {e : Nat} :
    e ∈ (rung part comma values positions).ends ↔
      ∃ pos ∈ positions, e ∈ (onceMore part comma values pos).ends ∧ e ≠ pos := by
  induction positions with
  | nil => simp [rung]
  | cons pos rest ih => simp [rung, ih]

theorem mem_rung_blanks {part : Search} {comma : Bool} {values : List Value}
    {positions : List Nat} {pos : Nat} :
    pos ∈ (rung part comma values positions).blanks ↔
      pos ∈ positions ∧ pos ∈ (onceMore part comma values pos).ends := by
  induction positions with
  | nil => simp [rung]
  | cons p rest ih =>
      simp only [rung, List.mem_append, List.mem_filter, beq_iff_eq, ih, List.mem_cons]
      constructor
      · rintro (⟨he, rfl⟩ | ⟨hpos, he⟩)
        · exact ⟨Or.inl rfl, he⟩
        · exact ⟨Or.inr hpos, he⟩
      · rintro ⟨rfl | hpos, he⟩
        · exact Or.inl ⟨he, rfl⟩
        · exact Or.inr ⟨hpos, he⟩

/-! ## Levels without pruning -/

section

variable (m : Multiplier) (part : Search) (values : List Value) (start : Nat)

/-- The ends of one more repetition after `count` of them. -/
def again (count pos : Nat) : List Nat := (onceMore part (m.commas && count != 0) values pos).ends

/-- The positions reached with exactly `n` repetitions that each moved on. -/
inductive Climbs : Nat → Nat → Prop
  | start : Climbs 0 start
  | step {n p e : Nat} : Climbs n p → m.allows (n + 1) → e ∈ again m part values n p → e ≠ p →
      Climbs (n + 1) e

/-- The positions of a level that are tried. -/
def fresh (count : Nat) (tried level : List Nat) : List Nat :=
  if m.forgetsCount count then level.filter (!tried.contains ·) else level

/-- The positions not to be tried again, after those of a level have been. -/
def remembered (count : Nat) (tried level : List Nat) : List Nat :=
  if m.forgetsCount count then tried ++ fresh m count tried level else tried

/-- The level above, from the positions of this one that are tried. -/
def above (count : Nat) (tried level : List Nat) : Rung :=
  rung part (m.commas && count != 0) values (fresh m count tried level)

/-- The state of a climb. The positions left out since they were tried lead nowhere else. -/
structure Caught (count : Nat) (tried level : List Nat) : Prop where
  reached : ∀ p ∈ level, Climbs m part values start count p
  kept : ∀ p, Climbs m part values start count p → p ∈ level ∨ p ∈ tried
  closed : ∀ p ∈ tried, ∀ n, count ≤ n → Climbs m part values start n p →
    ∀ e ∈ again m part values n p, e ≠ p → e ∈ level ∨ e ∈ tried
  forgets : tried ≠ [] → m.forgetsCount count

end

variable {m : Multiplier} {part : Search} {values : List Value} {start : Nat}

theorem Climbs.allowed {n e : Nat} (h : Climbs m part values start (n + 1) e) :
    m.allows (n + 1) := by
  cases h with
  | step _ allowed _ _ => exact allowed

theorem Climbs.add_le (forward : part.Forward) {n e : Nat} (h : Climbs m part values start n e) :
    start + n ≤ e := by
  induction h with
  | start => exact Nat.le_refl _
  | step _ _ he progress ih =>
      have lt := lt_of_mem_onceMore forward he progress
      omega

/-! ## What one step preserves -/

theorem mem_remembered {count : Nat} {tried level : List Nat} {p : Nat} :
    p ∈ remembered m count tried level ↔
      p ∈ tried ∨ m.forgetsCount count ∧ p ∈ fresh m count tried level := by
  rw [remembered]
  split
  next h => simp [h]
  next h => simp [h]

theorem mem_fresh_or_mem_tried {count : Nat} {tried level : List Nat} {p : Nat} (h : p ∈ level) :
    p ∈ fresh m count tried level ∨ p ∈ tried := by
  rw [fresh]
  split
  next =>
    by_cases ht : p ∈ tried
    · exact Or.inr ht
    · exact Or.inl (List.mem_filter.mpr ⟨h, by simp [ht]⟩)
  next => exact Or.inl h

theorem mem_of_mem_fresh {count : Nat} {tried level : List Nat} {p : Nat}
    (h : p ∈ fresh m count tried level) : p ∈ level := by
  rw [fresh] at h
  split at h
  next => exact (List.mem_filter.mp h).1
  next => exact h

theorem forgetsCount_succ {count : Nat} (h : m.forgetsCount count) :
    m.forgetsCount (count + 1) := by
  simp only [Multiplier.forgetsCount, Bool.and_eq_true, decide_eq_true_eq] at h ⊢
  exact ⟨h.1, Nat.le_succ_of_le h.2⟩

theorem mem_above {count : Nat} {tried level : List Nat} {e : Nat} :
    e ∈ distinct (above m part values count tried level).ends ↔
      ∃ p ∈ fresh m count tried level, e ∈ again m part values count p ∧ e ≠ p := by
  rw [mem_distinct, above, mem_rung_ends]
  rfl

/-- At the start position nothing is behind, everywhere else the gap no longer depends on the
count. -/
theorem Climbs.again_eq (forward : part.Forward) {n k p : Nat} (le : n ≤ k)
    (hn : Climbs m part values start n p) (hk : Climbs m part values start k p) :
    again m part values k p = again m part values n p := by
  cases n with
  | zero =>
      cases hn with
      | start =>
          have := hk.add_le forward
          obtain rfl : k = 0 := by omega
          rfl
  | succ n =>
      obtain ⟨k, rfl⟩ : ∃ j, k = j + 1 := ⟨k - 1, by omega⟩
      simp [again]

theorem Caught.next (forward : part.Forward) {count : Nat} {tried level : List Nat}
    (h : Caught m part values start count tried level) (allowed : m.allows (count + 1)) :
    Caught m part values start (count + 1) (remembered m count tried level)
      (distinct (above m part values count tried level).ends) := by
  have old : ∀ p, p ∈ level ∨ p ∈ tried → p ∈ fresh m count tried level ∨ p ∈ tried := by
    rintro p (hp | hp)
    · exact mem_fresh_or_mem_tried hp
    · exact Or.inr hp
  -- positions are left out only once the count is forgotten, and from then on all are remembered
  have onward : ∀ p, p ∈ tried → ∀ n, count ≤ n → Climbs m part values start n p →
      ∀ e ∈ again m part values n p, e ≠ p → e ∈ remembered m count tried level := by
    intro p hp n le hn e he progress
    rw [mem_remembered]
    rcases old e (h.closed p hp n le hn e he progress) with he | he
    · exact Or.inr ⟨h.forgets (List.ne_nil_of_mem hp), he⟩
    · exact Or.inl he
  constructor
  case reached =>
    intro e he
    obtain ⟨p, hp, he, progress⟩ := mem_above.mp he
    exact Climbs.step (h.reached p (mem_of_mem_fresh hp)) allowed he progress
  case kept =>
    intro e he
    cases he with
    | @step _ p _ hp _ he progress =>
        rcases old p (h.kept p hp) with hf | ht
        · exact Or.inl (mem_above.mpr ⟨p, hf, he, progress⟩)
        · exact Or.inr (onward p ht count (Nat.le_refl _) hp e he progress)
  case closed =>
    intro p hp n le hn e he progress
    rcases mem_remembered.mp hp with ht | ⟨-, hf⟩
    · exact Or.inr (onward p ht n (by omega) hn e he progress)
    · have here := h.reached p (mem_of_mem_fresh hf)
      rw [here.again_eq forward (by omega) hn] at he
      exact Or.inl (mem_above.mpr ⟨p, hf, he, progress⟩)
  case forgets =>
    intro some_tried
    obtain ⟨p, hp⟩ := List.exists_mem_of_ne_nil _ some_tried
    rcases mem_remembered.mp hp with ht | ⟨forgets, -⟩
    · exact forgetsCount_succ (h.forgets (List.ne_nil_of_mem ht))
    · exact forgetsCount_succ forgets

/-! ## Whole climbs -/

theorem climb_succ {steps count : Nat} {tried level : List Nat} :
    climb m part values (steps + 1) count tried level =
      if m.allows (count + 1) then
        let rise := above m part values count tried level
        let next := distinct rise.ends
        if next.isEmpty then ⟨[level], rise.blanks, rise.faults⟩
        else
          let rest := climb m part values steps (count + 1) (remembered m count tried level) next
          ⟨level :: rest.levels, rise.blanks ++ rest.blanks, rise.faults ++ rest.faults⟩
      else ⟨[level], [], ∅⟩ :=
  rfl

theorem at_climb_zero {steps count : Nat} {tried level : List Nat} {e : Nat} :
    (climb m part values steps count tried level).At 0 e ↔ e ∈ level := by
  cases steps with
  | zero => simp [climb, Levels.At]
  | succ steps =>
      rw [climb_succ]
      dsimp only
      split
      next => split <;> simp [Levels.At]
      next => simp [Levels.At]

theorem not_at_climb_nil {steps count : Nat} {tried : List Nat} {k e : Nat} :
    ¬(climb m part values steps count tried []).At k e := by
  have lone : (climb m part values steps count tried []).levels = [[]] := by
    cases steps with
    | zero => rfl
    | succ steps =>
        have nothing : (above m part values count tried []).ends = [] := by
          simp [above, fresh, rung]
        rw [climb_succ]
        split <;> simp [nothing, distinct]
  cases k <;> simp [Levels.At, lone]

theorem at_climb_succ {steps count : Nat} {tried level : List Nat} {k e : Nat} :
    (climb m part values (steps + 1) count tried level).At (k + 1) e ↔
      m.allows (count + 1) ∧
        (climb m part values steps (count + 1) (remembered m count tried level)
          (distinct (above m part values count tried level).ends)).At k e := by
  rw [climb_succ]
  dsimp only
  split
  next allowed =>
    split
    next none_next =>
      rw [List.isEmpty_iff.mp none_next]
      simp only [not_at_climb_nil, and_false]
      simp [Levels.At]
    next => simp [Levels.At, allowed]
  next refused => simp [Levels.At, refused]

theorem blanks_climb_nil {steps count : Nat} {tried : List Nat} :
    (climb m part values steps count tried []).blanks = [] := by
  cases steps with
  | zero => rfl
  | succ steps =>
      have nothing : above m part values count tried [] = ⟨[], [], ∅⟩ := by
        simp [above, fresh, rung]
      rw [climb_succ]
      split <;> simp [nothing, distinct]

theorem mem_blanks_climb_succ {steps count : Nat} {tried level : List Nat} {p : Nat} :
    p ∈ (climb m part values (steps + 1) count tried level).blanks ↔
      m.allows (count + 1) ∧
        (p ∈ (above m part values count tried level).blanks ∨
          p ∈ (climb m part values steps (count + 1) (remembered m count tried level)
            (distinct (above m part values count tried level).ends)).blanks) := by
  rw [climb_succ]
  dsimp only
  split
  next allowed =>
    split
    next none_next => simp [List.isEmpty_iff.mp none_next, blanks_climb_nil, allowed]
    next => simp [allowed]
  next refused => simp [refused]

theorem Caught.initial : Caught m part values start 0 [] [start] := by
  constructor
  case reached =>
    intro p hp
    obtain rfl := List.mem_singleton.mp hp
    exact Climbs.start
  case kept =>
    intro p hp
    cases hp
    exact Or.inl List.mem_cons_self
  case closed =>
    intro p hp
    cases hp
  case forgets =>
    intro none_tried
    exact absurd rfl none_tried

theorem Caught.climbs_of_at (forward : part.Forward) {steps count : Nat} {tried level : List Nat}
    (h : Caught m part values start count tried level) {k e : Nat}
    (he : (climb m part values steps count tried level).At k e) :
    Climbs m part values start (count + k) e := by
  induction k generalizing steps count tried level with
  | zero => exact h.reached e (at_climb_zero.mp he)
  | succ k ih =>
      cases steps with
      | zero => simp [Levels.At, climb] at he
      | succ steps =>
          obtain ⟨allowed, he⟩ := at_climb_succ.mp he
          rw [← Nat.add_assoc, Nat.add_right_comm]
          exact ih (h.next forward allowed) he

theorem Caught.climbs_of_blank (forward : part.Forward) {steps count : Nat}
    {tried level : List Nat} (h : Caught m part values start count tried level) {p : Nat}
    (hp : p ∈ (climb m part values steps count tried level).blanks) :
    ∃ n, m.allows (n + 1) ∧ Climbs m part values start n p ∧ p ∈ again m part values n p := by
  induction steps generalizing count tried level with
  | zero => simp [climb] at hp
  | succ steps ih =>
      obtain ⟨allowed, here | later⟩ := mem_blanks_climb_succ.mp hp
      · obtain ⟨hf, he⟩ := mem_rung_blanks.mp here
        exact ⟨count, allowed, h.reached p (mem_of_mem_fresh hf), he⟩
      · exact ih (h.next forward allowed) later

/-- Behind an empty level, everything has been tried. -/
theorem Caught.mem_tried {count : Nat} {tried : List Nat}
    (h : Caught m part values start count tried []) {n e : Nat} (le : count ≤ n)
    (he : Climbs m part values start n e) : e ∈ tried := by
  obtain ⟨k, rfl⟩ := Nat.exists_eq_add_of_le le
  clear le
  induction k generalizing e with
  | zero => exact (h.kept e he).resolve_left List.not_mem_nil
  | succ k ih =>
      cases he with
      | @step _ p _ hp _ he progress =>
          exact (h.closed p (ih hp) _ (Nat.le_add_right count k) hp e he progress).resolve_left
            List.not_mem_nil

theorem length_sub_lt_of_mem_above (forward : part.Forward) {steps count : Nat}
    {tried level : List Nat} (room : ∀ p ∈ level, values.length - p < steps + 1) :
    ∀ e ∈ distinct (above m part values count tried level).ends, values.length - e < steps := by
  intro e he
  obtain ⟨p, hp, he, progress⟩ := mem_above.mp he
  have lt := lt_of_mem_onceMore forward he progress
  have := room p (mem_of_mem_fresh hp)
  omega

theorem mem_remembered_cases {count : Nat} {tried level : List Nat} {p : Nat}
    (h : p ∈ remembered m count tried level) : p ∈ tried ∨ m.least ≤ count ∧ p ∈ level := by
  rcases mem_remembered.mp h with ht | ⟨forgets, hf⟩
  · exact Or.inl ht
  · rw [Multiplier.forgetsCount, Bool.and_eq_true, decide_eq_true_eq] at forgets
    exact Or.inr ⟨forgets.2, mem_of_mem_fresh hf⟩

theorem Caught.at_of_climbs (forward : part.Forward) {steps count : Nat} {tried level : List Nat}
    (h : Caught m part values start count tried level)
    (room : ∀ p ∈ level, values.length - p < steps) {n e : Nat} (le : count ≤ n)
    (least : m.least ≤ n) (he : Climbs m part values start n e) :
    e ∈ tried ∨
      ∃ k, m.least ≤ count + k ∧ (climb m part values steps count tried level).At k e := by
  induction steps generalizing count tried level with
  | zero =>
      -- every step moved on, so there is no room left for a position
      have no_level : level = [] :=
        List.eq_nil_iff_forall_not_mem.mpr fun p hp => Nat.not_lt_zero _ (room p hp)
      subst no_level
      exact Or.inl (h.mem_tried le he)
  | succ steps ih =>
      -- reached at this level, or by the climb from the next one
      rcases Nat.eq_or_lt_of_le le with rfl | lt
      · rcases h.kept e he with hl | ht
        · exact Or.inr ⟨0, least, at_climb_zero.mpr hl⟩
        · exact Or.inl ht
      · obtain ⟨j, rfl⟩ : ∃ j, n = j + 1 := ⟨n - 1, by omega⟩
        have allowed := Multiplier.allows_of_le he.allowed lt
        rcases ih (h.next forward allowed) (length_sub_lt_of_mem_above forward room) lt with
          hr | ⟨k, least, found⟩
        · rcases mem_remembered_cases hr with ht | ⟨least, hl⟩
          · exact Or.inl ht
          · exact Or.inr ⟨0, least, at_climb_zero.mpr hl⟩
        · exact Or.inr ⟨k + 1, by omega, at_climb_succ.mpr ⟨allowed, found⟩⟩

/-- Where a repetition can be blank, it was found to be blank. -/
theorem Caught.blank_of_climbs (forward : part.Forward) {steps count : Nat}
    {tried level : List Nat} (h : Caught m part values start count tried level)
    (room : ∀ p ∈ level, values.length - p < steps) {n p : Nat} (le : count ≤ n)
    (allowed : m.allows (n + 1)) (hp : Climbs m part values start n p)
    (blank : p ∈ again m part values n p) :
    p ∈ tried ∨ p ∈ (climb m part values steps count tried level).blanks := by
  induction steps generalizing count tried level with
  | zero =>
      have no_level : level = [] :=
        List.eq_nil_iff_forall_not_mem.mpr fun q hq => Nat.not_lt_zero _ (room q hq)
      subst no_level
      exact Or.inl (h.mem_tried le hp)
  | succ steps ih =>
      have allowed_here : m.allows (count + 1) :=
        Multiplier.allows_of_le allowed (Nat.succ_le_succ le)
      -- a position of this level that is tried is blank here, whatever count it is reached with
      have here (hf : p ∈ fresh m count tried level) :
          p ∈ (climb m part values (steps + 1) count tried level).blanks := by
        have reached := h.reached p (mem_of_mem_fresh hf)
        rw [reached.again_eq forward le hp] at blank
        exact mem_blanks_climb_succ.mpr ⟨allowed_here, Or.inl (mem_rung_blanks.mpr ⟨hf, blank⟩)⟩
      rcases Nat.eq_or_lt_of_le le with rfl | lt
      · rcases h.kept p hp with hl | ht
        · rcases mem_fresh_or_mem_tried hl with hf | ht
          · exact Or.inr (here hf)
          · exact Or.inl ht
        · exact Or.inl ht
      · rcases ih (h.next forward allowed_here) (length_sub_lt_of_mem_above forward room) lt with
          hr | later
        · rcases mem_remembered.mp hr with ht | ⟨-, hf⟩
          · exact Or.inl ht
          · exact Or.inr (here hf)
        · exact Or.inr (mem_blanks_climb_succ.mpr ⟨allowed_here, Or.inr later⟩)

/-! ## The ends of a repetition -/

theorem ends_repeated : (repeated m part values start).ends =
    distinct (((levelsFrom m part values start).levels.drop m.least).reverse.flatten ++
      (levelsFrom m part values start).blanks) := by
  simp only [repeated]
  split <;> rfl

theorem mem_ends_repeated {e : Nat} :
    e ∈ (repeated m part values start).ends ↔
      (∃ n, m.least ≤ n ∧ (levelsFrom m part values start).At n e) ∨
        e ∈ (levelsFrom m part values start).blanks := by
  rw [ends_repeated, mem_distinct, List.mem_append, List.mem_flatten]
  simp only [List.mem_reverse]
  simp only [List.mem_iff_getElem?, List.getElem?_drop, Levels.At]
  constructor
  · rintro (⟨level, ⟨i, hi⟩, he⟩ | blank)
    · exact Or.inl ⟨m.least + i, Nat.le_add_right _ _, level, hi, he⟩
    · exact Or.inr blank
  · rintro (⟨n, least, level, hn, he⟩ | blank)
    · obtain ⟨i, rfl⟩ := Nat.exists_eq_add_of_le least
      exact Or.inl ⟨level, ⟨i, hn⟩, he⟩
    · exact Or.inr blank

/-- The ends of a repetition: what is reached with enough repetitions that each moved on, and what
is reached with fewer where the next one can be blank. -/
theorem mem_ends_repeated_iff (forward : part.Forward) {e : Nat} :
    e ∈ (repeated m part values start).ends ↔
      (∃ n, m.least ≤ n ∧ Climbs m part values start n e) ∨
        ∃ n, m.allows (n + 1) ∧ Climbs m part values start n e ∧ e ∈ again m part values n e := by
  have room : ∀ p ∈ [start], values.length - p < values.length - start + 1 := by
    intro p hp
    obtain rfl := List.mem_singleton.mp hp
    omega
  rw [mem_ends_repeated]
  constructor
  · rintro (⟨n, least, he⟩ | blank)
    · have climbs := Caught.initial.climbs_of_at forward he
      rw [Nat.zero_add] at climbs
      exact Or.inl ⟨n, least, climbs⟩
    · exact Or.inr (Caught.initial.climbs_of_blank forward blank)
  · rintro (⟨n, least, climbs⟩ | ⟨n, allowed, climbs, blank⟩)
    · rcases Caught.initial.at_of_climbs forward room (Nat.zero_le n) least climbs with
        ht | ⟨k, hk, he⟩
      · cases ht
      · exact Or.inl ⟨k, by simpa using hk, he⟩
    · rcases Caught.initial.blank_of_climbs forward room (Nat.zero_le n) allowed climbs blank with
        ht | found
      · cases ht
      · exact Or.inr found

theorem climbs_iff {span : Span} (h : part.Finds span) (forward : span.Forward)
    (advances : ∀ values start, ¬span values start start) {n e : Nat} :
    Climbs m part values start n e ↔
      m.allows n ∧ Span.inOrder m.commas (List.replicate n span) values start e := by
  induction n generalizing e with
  | zero =>
      rw [Multiplier.allows_iff]
      constructor
      · intro climbs
        cases climbs
        exact ⟨fun _ _ => Nat.zero_le _, rfl⟩
      · rintro ⟨-, rfl⟩
        exact Climbs.start
  | succ n ih =>
      have again_iff : ∀ p, e ∈ again m part values n p ↔
          Span.afterGap (m.commas && !(List.replicate n span).isEmpty) span values p e := by
        intro p
        rw [again, mem_ends_onceMore h, List.isEmpty_replicate]
        rfl
      rw [List.replicate_succ', Span.inOrder_concat]
      constructor
      · intro climbs
        cases climbs with
        | @step _ p _ hp allowed he _ =>
            exact ⟨allowed, p, (ih.mp hp).2, (again_iff p).mp he⟩
      · rintro ⟨allowed, p, hp, he⟩
        have climbs := ih.mpr ⟨Multiplier.allows_of_le allowed (Nat.le_succ n), hp⟩
        exact Climbs.step climbs allowed ((again_iff p).mpr he)
          (Span.ne_of_afterGap forward advances he)

theorem repeated_finds {span : Span} (h : part.Finds span) (forward : span.Forward)
    (advances : ∀ values start, ¬span values start start) :
    (repeated m part).Finds (Span.repeated m span) := by
  intro values start e
  simp only [Span.repeated, ← Multiplier.allows_iff, ← climbs_iff h forward advances]
  rw [mem_ends_repeated_iff (h.forward forward)]
  constructor
  · rintro (found | ⟨n, -, -, blank⟩)
    · exact found
    -- what is repeated consumes something, so no repetition was blank
    · exact absurd rfl (Span.ne_of_afterGap forward advances ((mem_ends_onceMore h).mp blank))
  · exact Or.inl

end Search

end CssSieve
