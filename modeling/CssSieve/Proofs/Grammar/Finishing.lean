import CssSieve.Proofs.Grammar.Advancing
import CssSieve.Proofs.Grammar.Recording
import CssSieve.Proofs.Loop

/-!
# The loops of a search come to an end

Two searches go on until nothing is left to do. A repetition climbs from level to level until a
turn finds no level above; a group in any order takes states from a stack until the stack is empty.
Here both are loops that nothing bounds from outside. They end for any parts that keep what a search
promises, and find what the searches find (`search_loops_finish`): the positions of a level lie
further on with every count, and a state put on the stack has one part less to use.
-/

namespace CssSieve

/-! ## Climbing without a bound -/

/-- Where the loop over the levels of a repetition stands. -/
structure Climber where
  /-- The levels that were left, lowest count first. -/
  below : List (List Nat)
  level : List Nat
  tried : List Nat
  /-- Where a repetition matched nothing. -/
  blanks : List Nat
  faults : Furthest Fault
  /-- Whether the last turn found no level above. -/
  stuck : Bool

namespace Climber

open Search (Climbs fresh remembered above)

/-- At the start position, with no repetition yet. The faults are noted behind others. -/
def ofStart (start : Nat) (before : Furthest Fault) : Climber :=
  ⟨[], [start], [], [], before, false⟩

/-- How many repetitions lead to the level. -/
def count (c : Climber) : Nat := c.below.length

/-- The levels so far. -/
def found (c : Climber) : Levels := ⟨c.below ++ [c.level], c.blanks, c.faults⟩

section

variable (m : Multiplier) (part : Search) (values : List Value)

/-- What one more repetition finds from the level. -/
def rise (c : Climber) : Rung := above m part values c.count c.tried c.level

/-- The level is left for the one above. -/
def risen (c : Climber) : Climber :=
  let rise := c.rise m part values
  ⟨c.below ++ [c.level], distinct rise.ends, remembered m c.count c.tried c.level,
    c.blanks ++ rise.blanks, c.faults ++ rise.faults, false⟩

/-- The level was tried, and there is none above. -/
def halted (c : Climber) : Climber :=
  let rise := c.rise m part values
  ⟨c.below, c.level, remembered m c.count c.tried c.level, c.blanks ++ rise.blanks,
    c.faults ++ rise.faults, true⟩

/-- The level is tried, and left if there is one above. -/
def climbed (c : Climber) : Climber :=
  if distinct (c.rise m part values).ends = [] then c.halted m part values
  else c.risen m part values

/-- One turn of the loop. It is over when no further repetition is allowed, or the last turn found
no level above. -/
def turn (c : Climber) : Option Climber :=
  if m.allows (c.count + 1) && !c.stuck then some (c.climbed m part values) else none

end

variable {m : Multiplier} {part : Search} {values : List Value} {start : Nat} {c d : Climber}

theorem turn_eq_some_iff :
    c.turn m part values = some d ↔
      (m.allows (c.count + 1) && !c.stuck) = true ∧ c.climbed m part values = d := by
  rw [turn]
  split
  next goes => simp [goes]
  next ended => simp [ended]

theorem turn_eq_none_iff :
    c.turn m part values = none ↔ (m.allows (c.count + 1) && !c.stuck) = false := by
  simp [turn]

theorem count_risen : (c.risen m part values).count = c.count + 1 := by simp [risen, count]

/-! ### The loop finds the levels of the search -/

/-- What is found once these levels have been climbed as well. -/
def followedBy (c : Climber) (l : Levels) : Levels :=
  ⟨c.below ++ l.levels, c.blanks ++ l.blanks, c.faults ++ l.faults⟩

/-- Where the loop is over, no climb goes further. -/
theorem followedBy_climb_of_ended (going : c.stuck = false) (ended : c.turn m part values = none)
    (steps : Nat) :
    c.followedBy (Search.climb m part values steps c.count c.tried c.level) = c.found := by
  have refused : m.allows (c.count + 1) = false := by simpa [turn_eq_none_iff, going] using ended
  have lone : Search.climb m part values steps c.count c.tried c.level = ⟨[c.level], [], ∅⟩ := by
    cases steps with
    | zero => rfl
    | succ steps => rw [Search.climb_succ, if_neg (by simp [refused])]
  rw [lone, followedBy, found, List.append_nil, Furthest.append_empty]

theorem climb_of_allowed (allowed : m.allows (c.count + 1) = true) (steps : Nat) :
    Search.climb m part values (steps + 1) c.count c.tried c.level =
      let rise := c.rise m part values
      if distinct rise.ends = [] then ⟨[c.level], rise.blanks, rise.faults⟩
      else
        let rest := Search.climb m part values steps (c.count + 1)
          (remembered m c.count c.tried c.level) (distinct rise.ends)
        ⟨c.level :: rest.levels, rise.blanks ++ rest.blanks, rise.faults ++ rest.faults⟩ := by
  rw [Search.climb_succ, if_pos allowed]
  simp only [List.isEmpty_iff]
  rfl

/-- A climb that is given as many steps as the loop takes finds the same. -/
theorem found_of_finishes {turns steps : Nat} {last : Climber}
    (h : Finishes (turn m part values) turns c last) (going : c.stuck = false)
    (enough : turns ≤ steps) :
    last.found = c.followedBy (Search.climb m part values steps c.count c.tried c.level) := by
  induction turns generalizing c steps with
  | zero =>
      obtain ⟨turns, ended⟩ := h
      cases turns
      exact (followedBy_climb_of_ended going ended steps).symm
  | succ turns ih =>
      obtain ⟨k, rfl⟩ : ∃ k, steps = k + 1 := ⟨steps - 1, by omega⟩
      obtain ⟨_ | ⟨first, rest⟩, ended⟩ := h
      obtain ⟨goes, rfl⟩ := turn_eq_some_iff.mp first
      rw [climb_of_allowed (Bool.and_eq_true_iff.mp goes).1]
      rw [climbed] at rest
      split at rest
      next none_next =>
        -- this turn found nothing above, so it was the last one
        rw [rest.eq_of_ended (turn_eq_none_iff.mpr (by simp [halted])), if_pos none_next]
        rfl
      next next =>
        rw [ih ⟨rest, ended⟩ rfl (Nat.le_of_succ_le_succ enough), if_neg next, count_risen]
        simp [followedBy, risen, Furthest.append_assoc]

/-! ### The loop ends -/

/-- The positions of the level are reached with one repetition for each level left. -/
def Reaches (m : Multiplier) (part : Search) (values : List Value) (start : Nat) (c : Climber) :
    Prop :=
  ∀ e ∈ c.level, Climbs m part values start c.count e

/-- How many turns there can still be. Every level lies one position further on at least. -/
def room (values : List Value) (start : Nat) (c : Climber) : Nat :=
  if c.stuck then 0 else values.length - (start + c.count) + 1

theorem reaches_risen (h : c.Reaches m part values start)
    (allowed : m.allows (c.count + 1) = true) :
    (c.risen m part values).Reaches m part values start := by
  intro e he
  rw [count_risen]
  obtain ⟨p, hp, he, progress⟩ := Search.mem_above.mp he
  exact .step (h p (Search.mem_of_mem_fresh hp)) allowed he progress

theorem turn_down (forward : part.Forward) (h : c.Reaches m part values start)
    (step : c.turn m part values = some d) :
    d.Reaches m part values start ∧ d.room values start < c.room values start := by
  obtain ⟨goes, rfl⟩ := turn_eq_some_iff.mp step
  obtain ⟨allowed, going⟩ : m.allows (c.count + 1) = true ∧ c.stuck = false := by simpa using goes
  have here : c.room values start = values.length - (start + c.count) + 1 := by simp [room, going]
  rw [climbed]
  split
  next =>
    have none_left : (c.halted m part values).room values start = 0 := rfl
    exact ⟨h, by omega⟩
  next next =>
    have reaches := reaches_risen h allowed
    refine ⟨reaches, ?_⟩
    -- some position of the level above lies within the values, and further on than its count
    obtain ⟨e, he⟩ := List.exists_mem_of_ne_nil _ next
    have climbs := reaches e he
    rw [count_risen] at climbs
    have low := climbs.add_le forward
    have high := climbs.forward forward
    have above : (c.risen m part values).room values start =
        values.length - (start + (c.count + 1)) + 1 := by
      rw [← count_risen]
      rfl
    omega

/-- Without a greatest count, there is a first turn. -/
theorem turns_pos {turns : Nat} {before : Furthest Fault} {last : Climber}
    (endless : m.greatest = none)
    (h : Finishes (turn m part values) turns (ofStart start before) last) : 0 < turns := by
  obtain ⟨_ | _, ended⟩ := h
  · rw [turn_eq_none_iff, Multiplier.allows, endless] at ended
    cases ended
  · exact Nat.succ_pos _

/-- The loop over the levels ends within one turn for each position that is left and one more, with
the levels of the search. -/
theorem finishes (forward : part.Forward) (m : Multiplier) (values : List Value) (start : Nat)
    (before : Furthest Fault) :
    ∃ turns last, Finishes (turn m part values) turns (ofStart start before) last ∧
      turns ≤ values.length - start + 1 ∧
      last.found = (ofStart start before).followedBy (Search.levelsFrom m part values start) := by
  have begins : (ofStart start before).Reaches m part values start := Search.Caught.initial.reached
  obtain ⟨turns, last, few, ends, -⟩ := exists_finishes (turn_down forward) begins
  exact ⟨turns, last, ends, few, found_of_finishes ends rfl few⟩

end Climber

/-! ## States on a stack -/

/-- Where the loop over the states stands. -/
structure Pile where
  /-- The states to be visited, the next one first. -/
  stack : List (Nat × Nat)
  found : Exploration

namespace Pile

open Search (Uses left visit explore explored successors tryUnused mem_successors)

/-- At the start position, with no part used yet. -/
def ofStart (start : Nat) : Pile := ⟨[(start, 0)], ⟨[], [], ∅⟩⟩

/-- One turn of the loop. A state that was visited before is only taken from the stack; from any
other, the states that can be reached by using one more part are put there. -/
def turn (allRequired : Bool) (parts : List (Search × Nat)) (values : List Value) :
    Pile → Option Pile
  | ⟨[], _⟩ => none
  | ⟨state :: stack, x⟩ =>
    if x.visited.contains state then some ⟨stack, x⟩
    else
      let next := successors state.1 state.2 (tryUnused parts values state.1 state.2)
      some ⟨next.reverse ++ stack, visit parts values allRequired state x⟩

variable {allRequired : Bool} {parts : List (Search × Nat)} {values : List Value}
variable {state : Nat × Nat} {stack : List (Nat × Nat)} {x : Exploration}

theorem turn_seen (seen : state ∈ x.visited) :
    turn allRequired parts values ⟨state :: stack, x⟩ = some ⟨stack, x⟩ := by
  rw [turn, if_pos (List.contains_iff_mem.mpr seen)]

theorem turn_unseen (unseen : state ∉ x.visited) :
    turn allRequired parts values ⟨state :: stack, x⟩ =
      some ⟨(successors state.1 state.2 (tryUnused parts values state.1 state.2)).reverse ++ stack,
        visit parts values allRequired state x⟩ := by
  rw [turn, if_neg (by simpa using unseen)]

/-- States that can be taken from the stack one by one are taken from the last to the first. -/
theorem turns_foldr {states : List (Nat × Nat)} {f : Nat × Nat → Exploration → Exploration}
    (each : ∀ s ∈ states, ∀ x stack, ∃ turns,
      Turns (turn allRequired parts values) turns ⟨s :: stack, x⟩ ⟨stack, f s x⟩)
    (x : Exploration) (stack : List (Nat × Nat)) :
    ∃ turns, Turns (turn allRequired parts values) turns ⟨states.reverse ++ stack, x⟩
      ⟨stack, states.foldr f x⟩ := by
  induction states generalizing stack with
  | nil => exact ⟨0, .refl _⟩
  | cons s states ih =>
      obtain ⟨here, others⟩ := List.forall_mem_cons.mp each
      obtain ⟨turns, before⟩ := ih others (s :: stack)
      obtain ⟨turns', last⟩ := here (states.foldr f x) stack
      rw [List.reverse_cons, List.append_assoc, List.singleton_append]
      exact ⟨turns' + turns, before.trans last⟩

/-- To explore from a state takes it from the stack, with all that is put there meanwhile. -/
theorem turns_explore {n : Nat} (enough : left parts state.2 ≤ n) (x : Exploration) :
    ∀ stack, ∃ turns, Turns (turn allRequired parts values) turns ⟨state :: stack, x⟩
      ⟨stack, explore allRequired parts values n state x⟩ := by
  refine Search.explore_induction (motive := fun state x y => ∀ stack, ∃ turns,
    Turns (turn allRequired parts values) turns ⟨state :: stack, x⟩ ⟨stack, y⟩) ?_ ?_ enough x
  · intro state x seen stack
    exact ⟨1, .single (turn_seen seen)⟩
  · intro state x f unseen each stack
    obtain ⟨turns, rest⟩ := turns_foldr each (visit parts values allRequired state x) stack
    exact ⟨turns + 1, .head (turn_unseen unseen) rest⟩

theorem turns_explored (allRequired : Bool) (parts : List Search) (values : List Value)
    (start : Nat) :
    ∃ turns, Turns (turn allRequired parts.zipIdx values) turns (ofStart start)
      ⟨[], explored allRequired parts values start⟩ :=
  turns_explore (Search.left_zero_le parts) _ []

/-! ### What is put on the stack -/

/-- One more part is used, and it moves on within the values. -/
structure UsesOneMore (parts : List Search) (values : List Value) (state next : Nat × Nat) :
    Prop where
  further : state.1 < next.1 ∧ next.1 ≤ values.length
  uses : ∃ i < parts.length, state.2.testBit i = false ∧ next.2 = state.2 ||| 1 <<< i

theorem usesOneMore {parts : List Search} (forward : ∀ part ∈ parts, part.Forward)
    {state next : Nat × Nat} (h : Uses parts.zipIdx values state next) :
    UsesOneMore parts values state next := by
  cases h with
  | @use pos used e i part hpart unused he progress =>
      rw [List.mk_mem_zipIdx_iff_getElem?] at hpart
      obtain ⟨inside, rfl⟩ := List.getElem?_eq_some_iff.mp hpart
      have moved := forward _ (List.getElem_mem inside) values pos e he
      exact ⟨moved.resolve_left progress, i, inside, unused, rfl⟩

/-- All that a turn can do. -/
inductive Turned (parts : List Search) (values : List Value) : Pile → Pile → Prop
  | again {state : Nat × Nat} {stack : List (Nat × Nat)} {x : Exploration} : state ∈ x.visited →
      Turned parts values ⟨state :: stack, x⟩ ⟨stack, x⟩
  | first {state : Nat × Nat} {stack pushed : List (Nat × Nat)} {x y : Exploration} :
      state ∉ x.visited → y.visited = state :: x.visited →
      (∀ next ∈ pushed, UsesOneMore parts values state next) →
      Turned parts values ⟨state :: stack, x⟩ ⟨pushed ++ stack, y⟩

theorem turned {parts : List Search} (forward : ∀ part ∈ parts, part.Forward) {p q : Pile}
    (h : turn allRequired parts.zipIdx values p = some q) : Turned parts values p q := by
  obtain ⟨_ | ⟨state, stack⟩, x⟩ := p
  · cases h
  · by_cases seen : state ∈ x.visited
    · rw [turn_seen seen] at h
      cases h
      exact .again seen
    · rw [turn_unseen seen] at h
      cases h
      refine .first seen rfl fun next hn => ?_
      exact usesOneMore forward (mem_successors.mp (List.mem_reverse.mp hn))

/-- A state is visited once. -/
theorem Turned.nodup {parts : List Search} {p q : Pile} (h : Turned parts values p q)
    (once : p.found.visited.Nodup) : q.found.visited.Nodup := by
  cases h with
  | again => exact once
  | first unseen grown =>
      rw [grown]
      exact List.nodup_cons.mpr ⟨unseen, once⟩

end Pile

/-! ## Both loops -/

namespace Search

/-- **Repetitions and groups are searched to an end.** For parts that stay where they are or move on
within the values, a repetition climbs with every level by one position at least, so that its loop
takes no more turns than positions are left and one more, and finds the levels of the search. The
loop of a group visits no state twice, whatever is put on the stack, and empties it. -/
theorem search_loops_finish {part : Search} (forward : part.Forward) {parts : List Search}
    (eachForward : ∀ p ∈ parts, p.Forward) (m : Multiplier) (allRequired : Bool)
    (values : List Value) (start : Nat) (before : Furthest Fault) :
    let all := levelsFrom m part values start
    (∃ turns last,
      Finishes (Climber.turn m part values) turns (.ofStart start before) last ∧
        last.found = ⟨all.levels, all.blanks, before ++ all.faults⟩ ∧
        (∀ count e, last.found.At count e → start + count ≤ e) ∧
        turns ≤ values.length - start + 1 ∧
        (m.greatest = none → values.length ≤ start → turns = 1)) ∧
      (∀ p q, Pile.turn allRequired parts.zipIdx values p = some q → Pile.Turned parts values p q) ∧
      ∃ turns x,
        Finishes (Pile.turn allRequired parts.zipIdx values) turns (.ofStart start) ⟨[], x⟩ ∧
        x.visited.Nodup ∧
        anyOrder allRequired parts values start = ⟨x.ends, x.faults⟩ := by
  intro all
  refine ⟨?_, fun p q => Pile.turned eachForward, ?_⟩
  · obtain ⟨turns, last, ends, few, same⟩ := Climber.finishes forward m values start before
    refine ⟨turns, last, ends, same, ?_, few, ?_⟩
    · intro count e he
      rw [same] at he
      have climbs := Caught.initial.climbs_of_at forward he
      rw [Nat.zero_add] at climbs
      exact climbs.add_le forward
    · intro endless past
      have := Climber.turns_pos endless ends
      omega
  · obtain ⟨turns, run⟩ := Pile.turns_explored allRequired parts values start
    refine ⟨turns, _, ⟨run, rfl⟩, ?_, rfl⟩
    exact run.preserves (fun once step => (Pile.turned eachForward step).nodup once) List.nodup_nil

/-- A part that can match nothing, repeated without end and as a part of a group. -/
theorem search_loops_finish_blank_part :
    let part : Search := (Grammar.optional (.word "a")).search
    let parts : List Search := [(Grammar.word "b").search, part]
    let values : List Value := [.token (.ident "a"), .token .whitespace, .token (.ident "a")]
    part.Forward ∧ (∀ p ∈ parts, p.Forward) ∧
      (∃ turns last,
        Finishes (Climber.turn ⟨0, none, false⟩ part values) turns (.ofStart 0 ∅) last ∧
          last.found.levels = [[0], [1], [3]] ∧ turns ≤ 4) ∧
      (∃ last, Finishes (Climber.turn ⟨0, none, false⟩ part values) 1 (.ofStart 5 ∅) last) ∧
      ∃ turns x, Finishes (Pile.turn false parts.zipIdx values) turns (.ofStart 0) ⟨[], x⟩ ∧
        x.visited.Nodup ∧ x.ends = [1, 0] := by
  intro part parts values
  have forward : part.Forward := Grammar.forward_search _
  have eachForward : ∀ p ∈ parts, p.Forward := by
    simpa [parts] using ⟨Grammar.forward_search (.word "b"), forward⟩
  obtain ⟨⟨turns, last, ends, same, -, few, -⟩, -, turns', x, ends', once, group⟩ :=
    search_loops_finish forward eachForward ⟨0, none, false⟩ false values 0 ∅
  obtain ⟨⟨turns'', last'', ends'', -, -, -, alone⟩, -⟩ :=
    search_loops_finish forward eachForward ⟨0, none, false⟩ false values 5 ∅
  refine ⟨forward, eachForward, ⟨turns, last, ends, ?_, few⟩, ⟨last'', ?_⟩, turns', x, ends', once,
    ?_⟩
  · rw [same]
    decide +kernel
  · rw [← alone rfl (by decide)]
    exact ends''
  · have ends_eq : (anyOrder false parts values 0).ends = [1, 0] := by decide +kernel
    rwa [group] at ends_eq

end Search

end CssSieve
