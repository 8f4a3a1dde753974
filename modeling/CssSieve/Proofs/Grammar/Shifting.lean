import CssSieve.Proofs.Grammar.Climbing
import CssSieve.Proofs.Grammar.Exploring
import CssSieve.Proofs.Grammar.Recording

/-!
# Searches look ahead only

What stands before the start makes no difference to a search. With more values in front, and the
start moved behind them, every grammar finds the same ends and the same faults, moved by as many
positions (`looksAhead_search`).
-/

namespace CssSieve

/-! ## Positions behind other values -/

section

variable (front values : List Value) (pos : Nat)

theorem skipWhitespace_append :
    skipWhitespace (front ++ values) (front.length + pos) =
      front.length + skipWhitespace values pos := by
  rw [skipWhitespace, skipWhitespace, List.drop_length_add_append, Nat.add_assoc]

theorem getElem?_append_length_add :
    (front ++ values)[front.length + pos]? = values[pos]? := by
  rw [List.getElem?_append_right (Nat.le_add_right _ _), Nat.add_sub_cancel_left]

theorem nextValue?_append :
    nextValue? (front ++ values) (front.length + pos) =
      (nextValue? values pos).map fun found => (front.length + found.1, found.2) := by
  simp only [nextValue?, skipWhitespace_append, getElem?_append_length_add, Option.map_map]
  rfl

theorem afterComma?_append :
    afterComma? (front ++ values) (front.length + pos) =
      (afterComma? values pos).map (front.length + ·) := by
  rw [afterComma?, afterComma?, nextValue?_append]
  cases nextValue? values pos with
  | none => rfl
  | some found => cases isComma : found.2.isComma <;> simp [isComma, Nat.add_assoc]

theorem afterGap?_append (comma : Bool) :
    afterGap? comma (front ++ values) (front.length + pos) =
      (afterGap? comma values pos).map (front.length + ·) := by
  cases comma with
  | false => rfl
  | true => exact afterComma?_append front values pos

end

/-! ## Ends moved by a distance -/

theorem ne_comp_add (distance pos : Nat) : (· != distance + pos) ∘ (distance + ·) = (· != pos) := by
  funext e
  simp [bne]

theorem eq_comp_add (distance pos : Nat) : (· == distance + pos) ∘ (distance + ·) = (· == pos) := by
  funext e
  simp

theorem distinct_map_add (distance : Nat) (es : List Nat) :
    distinct (es.map (distance + ·)) = (distinct es).map (distance + ·) := by
  induction es with
  | nil => rfl
  | cons e es ih =>
      rw [List.map_cons, distinct, ih, List.filter_map, ne_comp_add, distinct, List.map_cons]

theorem insertEnd_map_add (distance e : Nat) (es : List Nat) :
    insertEnd (distance + e) (es.map (distance + ·)) = (insertEnd e es).map (distance + ·) := by
  induction es with
  | nil => rfl
  | cons d ds ih =>
      simp only [List.map_cons, insertEnd, ih, Nat.add_lt_add_iff_left, Nat.add_left_cancel_iff]
      split
      next => rfl
      next => split <;> rfl

theorem contains_map_add (distance e : Nat) (es : List Nat) :
    (es.map (distance + ·)).contains (distance + e) = es.contains e := by
  simp

theorem foldl_max_map_add (distance start : Nat) (es : List Nat) :
    (es.map (distance + ·)).foldl max (distance + start) = distance + es.foldl max start := by
  induction es generalizing start with
  | nil => rfl
  | cons e es ih => rw [List.map_cons, List.foldl_cons, Nat.add_max_add_left, ih, List.foldl_cons]

/-- What one more repetition finds, moved by a distance. -/
def Rung.shift (distance : Nat) (r : Rung) : Rung :=
  ⟨r.ends.map (distance + ·), r.blanks.map (distance + ·), r.faults.shift distance⟩

/-- Levels with every position moved by a distance. -/
def Levels.shift (distance : Nat) (l : Levels) : Levels :=
  ⟨l.levels.map (List.map (distance + ·)), l.blanks.map (distance + ·), l.faults.shift distance⟩

/-- What has been found, with every position moved by a distance. -/
def Exploration.shift (distance : Nat) (x : Exploration) : Exploration :=
  ⟨x.visited.map fun state => (distance + state.1, state.2), x.ends.map (distance + ·),
    x.faults.shift distance⟩

namespace Outcome

/-- The outcome with every end and every fault moved by a distance. -/
def shift (distance : Nat) (a : Outcome) : Outcome :=
  ⟨a.ends.map (distance + ·), a.faults.shift distance⟩

variable {α β : Type} {distance : Nat}

theorem shift_append (a b : Outcome) :
    (append a b).shift distance = append (a.shift distance) (b.shift distance) := by
  simp only [append, shift, List.map_append, Furthest.shift_append]

theorem shift_dedup (a : Outcome) : a.dedup.shift distance = (a.shift distance).dedup := by
  simp only [dedup, shift, distinct_map_add]

theorem shift_faultAt (offset : Nat) (fault : Fault) :
    (faultAt offset fault).shift distance = faultAt (distance + offset) fault :=
  congrArg (Outcome.mk []) (Furthest.shift_record ∅ offset fault)

theorem gather_map (f : β → Outcome) (g : α → β) (as : List α) :
    gather f (as.map g) = gather (f ∘ g) as := by
  induction as with
  | nil => rfl
  | cons a as ih => rw [List.map_cons, gather, ih, gather, Function.comp_apply]

theorem gather_eq_shift {f g : α → Outcome} {as : List α}
    (h : ∀ a ∈ as, f a = (g a).shift distance) : gather f as = (gather g as).shift distance := by
  induction as with
  | nil => rfl
  | cons a as ih =>
      obtain ⟨first, others⟩ := List.forall_mem_cons.mp h
      rw [gather, first, ih others, gather, shift_append]

end Outcome

namespace Search

/-- What stands before the start makes no difference to the search. -/
def LooksAhead (search : Search) : Prop :=
  ∀ front values start,
    search (front ++ values) (front.length + start) = (search values start).shift front.length

/-! ## Single values -/

theorem one_looksAhead (accepts : Value → Bool) : (one accepts).LooksAhead := by
  intro front values start
  rw [one, one, nextValue?_append]
  cases nextValue? values start with
  | none => rfl
  | some found =>
      obtain ⟨i, v⟩ := found
      simp only [Option.map_some]
      split <;> rfl

theorem group_looksAhead (inside : Value → Option (List Value)) (fault : Fault)
    (contents : Search) : (group inside fault contents).LooksAhead := by
  intro front values start
  rw [group, group, nextValue?_append]
  cases nextValue? values start with
  | none => rfl
  | some found =>
      obtain ⟨i, v⟩ := found
      simp only [Option.map_some]
      cases inside v with
      | none => rfl
      | some vs =>
          simp only
          split
          next => rfl
          next => exact (Outcome.shift_faultAt i fault).symm

theorem whitespace_looksAhead (required : Bool) : (whitespace required).LooksAhead := by
  intro front values start
  have same : (front.length + skipWhitespace values start == front.length + start) =
      (skipWhitespace values start == start) := by
    simp
  rw [whitespace, whitespace, skipWhitespace_append]
  simp only [same]
  split <;> rfl

theorem noWhitespace_looksAhead : noWhitespace.LooksAhead := by
  intro front values start
  rw [noWhitespace, noWhitespace, getElem?_append_length_add]
  split <;> rfl

/-! ## Alternatives and sequences -/

theorem oneOf_looksAhead {parts : List Search} (h : ∀ part ∈ parts, part.LooksAhead) :
    (oneOf parts).LooksAhead := by
  intro front values start
  rw [oneOf, oneOf, Outcome.shift_dedup]
  exact congrArg Outcome.dedup
    (Outcome.gather_eq_shift fun part hpart => h part hpart front values start)

theorem onceMore_append {part : Search} (h : part.LooksAhead) (comma : Bool)
    (front values : List Value) (pos : Nat) :
    onceMore part comma (front ++ values) (front.length + pos) =
      (onceMore part comma values pos).shift front.length := by
  rw [onceMore, onceMore, afterGap?_append]
  cases afterGap? comma values pos with
  | none => rfl
  | some p => exact h front values p

theorem fromEach_append {part : Search} (h : part.LooksAhead) (comma : Bool)
    (front values : List Value) (positions : List Nat) :
    fromEach comma part (front ++ values) (positions.map (front.length + ·)) =
      (fromEach comma part values positions).shift front.length := by
  show (Outcome.gather (onceMore part comma (front ++ values)) _).dedup =
    (Outcome.gather (onceMore part comma values) positions).dedup.shift front.length
  rw [Outcome.gather_map, Outcome.shift_dedup]
  exact congrArg Outcome.dedup
    (Outcome.gather_eq_shift fun pos _ => onceMore_append h comma front values pos)

theorem inOrderFrom_append {parts : List Search} (h : ∀ part ∈ parts, part.LooksAhead)
    (commas : Bool) (front values : List Value) (positions : List Nat) :
    inOrderFrom commas (front ++ values) parts (positions.map (front.length + ·)) =
      (inOrderFrom commas values parts positions).shift front.length := by
  induction parts generalizing positions with
  | nil => rfl
  | cons part parts ih =>
      obtain ⟨first, others⟩ := List.forall_mem_cons.mp h
      have rest := ih others (fromEach commas part values positions).ends
      simp only [inOrderFrom, fromEach_append first, Outcome.shift, rest, Furthest.shift_append]

theorem inOrder_looksAhead {parts : List Search} (h : ∀ part ∈ parts, part.LooksAhead)
    (commas : Bool) : (inOrder commas parts).LooksAhead := by
  intro front values start
  cases parts with
  | nil => rfl
  | cons part parts =>
      obtain ⟨first, others⟩ := List.forall_mem_cons.mp h
      have reached := fromEach_append first false front values [start]
      have rest := inOrderFrom_append others commas front values
        (fromEach false part values [start]).ends
      rw [List.map_singleton] at reached
      simp only [inOrder, reached, Outcome.shift, rest, Furthest.shift_append]

/-! ## Repetitions -/

theorem rung_append {part : Search} (h : part.LooksAhead) (comma : Bool)
    (front values : List Value) (positions : List Nat) :
    rung part comma (front ++ values) (positions.map (front.length + ·)) =
      (rung part comma values positions).shift front.length := by
  induction positions with
  | nil => rfl
  | cons pos rest ih =>
      simp only [List.map_cons, rung, ih, onceMore_append h, Rung.shift, Outcome.shift,
        List.filter_map, ne_comp_add, eq_comp_add, List.map_append, Furthest.shift_append]

variable (m : Multiplier) {part : Search}

theorem fresh_map_add (distance count : Nat) (tried level : List Nat) :
    fresh m count (tried.map (distance + ·)) (level.map (distance + ·)) =
      (fresh m count tried level).map (distance + ·) := by
  have untried : (fun p => !(tried.map (distance + ·)).contains p) ∘ (distance + ·) =
      (!tried.contains ·) := by
    funext e
    exact congrArg Bool.not (contains_map_add distance e tried)
  rw [fresh, fresh]
  split
  next => rw [List.filter_map, untried]
  next => rfl

theorem remembered_map_add (distance count : Nat) (tried level : List Nat) :
    remembered m count (tried.map (distance + ·)) (level.map (distance + ·)) =
      (remembered m count tried level).map (distance + ·) := by
  rw [remembered, remembered, fresh_map_add]
  split
  next => exact List.map_append.symm
  next => rfl

theorem above_append (h : part.LooksAhead) (front values : List Value) (count : Nat)
    (tried level : List Nat) :
    above m part (front ++ values) count (tried.map (front.length + ·))
        (level.map (front.length + ·)) =
      (above m part values count tried level).shift front.length := by
  rw [above, fresh_map_add, rung_append h, above]

theorem climb_append (h : part.LooksAhead) (front values : List Value) (steps count : Nat)
    (tried level : List Nat) :
    climb m part (front ++ values) steps count (tried.map (front.length + ·))
        (level.map (front.length + ·)) =
      (climb m part values steps count tried level).shift front.length := by
  induction steps generalizing count tried level with
  | zero => rfl
  | succ steps ih =>
      have rise : above m part (front ++ values) count (tried.map (front.length + ·))
          (level.map (front.length + ·)) = _ := above_append m h front values count tried level
      rw [climb_succ, climb_succ]
      simp only [rise, Rung.shift, distinct_map_add, List.isEmpty_map, remembered_map_add, ih]
      by_cases allowed : m.allows (count + 1) = true
      · rw [if_pos allowed, if_pos allowed]
        by_cases none_next : (distinct (above m part values count tried level).ends).isEmpty = true
        · rw [if_pos none_next, if_pos none_next]
          rfl
        · rw [if_neg none_next, if_neg none_next]
          simp only [Levels.shift, List.map_cons, List.map_append, Furthest.shift_append]
      · rw [if_neg allowed, if_neg allowed]
        rfl

theorem levelsFrom_append (h : part.LooksAhead) (front values : List Value) (start : Nat) :
    levelsFrom m part (front ++ values) (front.length + start) =
      (levelsFrom m part values start).shift front.length := by
  have room : (front ++ values).length - (front.length + start) = values.length - start := by
    rw [List.length_append, Nat.add_sub_add_left]
  rw [levelsFrom, room]
  exact climb_append m h front values _ 0 [] [start]

theorem repeated_looksAhead (h : part.LooksAhead) : (repeated m part).LooksAhead := by
  intro front values start
  have ends (l : Levels) : distinct (((l.shift front.length).levels.drop m.least).reverse.flatten
      ++ (l.shift front.length).blanks) =
      (distinct ((l.levels.drop m.least).reverse.flatten ++ l.blanks)).map (front.length + ·) := by
    rw [← distinct_map_add, List.map_append, List.map_flatten, List.map_reverse, List.map_drop]
    rfl
  have furthest (l : Levels) : (l.shift front.length).levels.flatten.foldl max
      (front.length + start) = front.length + l.levels.flatten.foldl max start := by
    rw [← foldl_max_map_add, List.map_flatten]
    rfl
  have found (l : Levels) : (l.shift front.length).levels.length = l.levels.length :=
    List.length_map _
  simp only [repeated, levelsFrom_append m h, ends, furthest, found, List.isEmpty_map]
  split
  next => exact congrArg (Outcome.mk _) (Furthest.shift_record _ _ _).symm
  next => rfl

/-! ## Groups in any order -/

variable {parts : List (Search × Nat)} {front values : List Value} {allRequired : Bool}

theorem tryUnused_append (h : ∀ p ∈ parts, p.1.LooksAhead) (pos used : Nat) :
    tryUnused parts (front ++ values) (front.length + pos) used =
      (tryUnused parts values pos used).map fun t => (t.1.shift front.length, t.2) := by
  rw [tryUnused, tryUnused, List.map_map]
  apply List.map_congr_left
  intro p hp
  exact congrArg (·, p.2) (h p (List.mem_of_mem_filter hp) front values pos)

theorem mayStop_map_shift (distance pos used : Nat) (tries : List (Outcome × Nat)) :
    mayStop allRequired (distance + pos) used (tries.map fun t => (t.1.shift distance, t.2)) =
      mayStop allRequired pos used tries := by
  have blank (t : Outcome × Nat) :
      (t.1.shift distance).ends.contains (distance + pos) = t.1.ends.contains pos :=
    contains_map_add distance pos t.1.ends
  simp only [mayStop, List.all_map, List.any_map, Function.comp_def, blank]

theorem successors_map_shift (distance pos used : Nat) (tries : List (Outcome × Nat)) :
    successors (distance + pos) used (tries.map fun t => (t.1.shift distance, t.2)) =
      (successors pos used tries).map fun state => (distance + state.1, state.2) := by
  simp only [successors, List.flatMap_map, List.map_flatMap, Outcome.shift, List.filter_map,
    ne_comp_add, List.map_map]
  rfl

theorem foldl_faults_map_shift (distance : Nat) (tries : List (Outcome × Nat))
    (f : Furthest Fault) :
    (tries.map fun t => (t.1.shift distance, t.2)).foldl (fun f t => f ++ t.1.faults)
        (f.shift distance) =
      (tries.foldl (fun f t => f ++ t.1.faults) f).shift distance := by
  induction tries generalizing f with
  | nil => rfl
  | cons t tries ih =>
      rw [List.map_cons, List.foldl_cons, List.foldl_cons, ← ih, Furthest.shift_append]
      rfl

theorem visit_append (h : ∀ p ∈ parts, p.1.LooksAhead) (state : Nat × Nat) (x : Exploration) :
    visit parts (front ++ values) allRequired (front.length + state.1, state.2)
        (x.shift front.length) =
      (visit parts values allRequired state x).shift front.length := by
  simp only [visit, tryUnused_append h, mayStop_map_shift, Exploration.shift,
    foldl_faults_map_shift, insertEnd_map_add]
  split <;> rfl

theorem mem_visited_shift {distance : Nat} {state : Nat × Nat} {x : Exploration} :
    (distance + state.1, state.2) ∈ (x.shift distance).visited ↔ state ∈ x.visited := by
  obtain ⟨pos, used⟩ := state
  simp [Exploration.shift]

theorem explore_append (h : ∀ p ∈ parts, p.1.LooksAhead) (n : Nat) (state : Nat × Nat)
    (x : Exploration) :
    explore allRequired parts (front ++ values) n (front.length + state.1, state.2)
        (x.shift front.length) =
      (explore allRequired parts values n state x).shift front.length := by
  induction n generalizing state x with
  | zero =>
      by_cases seen : state ∈ x.visited
      · rw [explore_visited seen, explore_visited (mem_visited_shift.mpr seen)]
      · rw [explore_zero seen, explore_zero (mt mem_visited_shift.mp seen), visit_append h]
  | succ n ih =>
      by_cases seen : state ∈ x.visited
      · rw [explore_visited seen, explore_visited (mem_visited_shift.mpr seen)]
      · rw [explore_succ seen, explore_succ (mt mem_visited_shift.mp seen), visit_append h,
          tryUnused_append h, successors_map_shift]
        -- the states that come next are visited one by one, the last one first
        induction successors state.1 state.2 (tryUnused parts values state.1 state.2) with
        | nil => rfl
        | cons next states ihs => rw [List.map_cons, List.foldr_cons, ihs, ih, List.foldr_cons]

theorem anyOrder_looksAhead {parts : List Search} (h : ∀ part ∈ parts, part.LooksAhead)
    (allRequired : Bool) : (anyOrder allRequired parts).LooksAhead := by
  intro front values start
  have each : ∀ p ∈ parts.zipIdx, p.1.LooksAhead :=
    fun p hp => h p.1 (List.fst_mem_of_mem_zipIdx hp)
  have found : explored allRequired parts (front ++ values) (front.length + start) =
      (explored allRequired parts values start).shift front.length :=
    explore_append each parts.length (start, 0) ⟨[], [], ∅⟩
  show Outcome.mk (explored allRequired parts (front ++ values) (front.length + start)).ends
    (explored allRequired parts (front ++ values) (front.length + start)).faults = _
  rw [found]
  rfl

end Search

namespace Grammar

mutual

/-- **A search looks ahead only.** -/
theorem looksAhead_search : (g : Grammar) → Search.LooksAhead g.search
  | keyword words => Search.one_looksAhead (acceptsKeyword words)
  | token kind test => Search.one_looksAhead (acceptsToken kind test)
  | customProperty => Search.one_looksAhead acceptsCustomProperty
  | delim chars => Search.one_looksAhead (acceptsDelim chars)
  | whitespace required => Search.whitespace_looksAhead required
  | noWhitespace => Search.noWhitespace_looksAhead
  | function name g => Search.group_looksAhead (argumentsOf? name) (.arguments name) g.search
  | block opener g => Search.group_looksAhead (contentsOf? opener) (.contents opener) g.search
  | oneOf gs => Search.oneOf_looksAhead (looksAhead_searches gs)
  | inOrder commas gs => Search.inOrder_looksAhead (looksAhead_searches gs) commas
  | repeated m g => Search.repeated_looksAhead m (looksAhead_search g)
  | anyOrder all gs => Search.anyOrder_looksAhead (looksAhead_searches gs) all

theorem looksAhead_searches : (gs : List Grammar) → ∀ part ∈ searches gs, part.LooksAhead
  | [] => by simp [searches]
  | g :: gs => by
      intro part hpart
      rcases List.mem_cons.mp hpart with rfl | hpart
      · exact looksAhead_search g
      · exact looksAhead_searches gs part hpart

end

end Grammar

end CssSieve
