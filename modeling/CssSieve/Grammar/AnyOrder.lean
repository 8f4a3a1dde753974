import CssSieve.Grammar.Search

/-!
# Groups in any order

`a && b` and `a || b`: parts that may stand in any order, each at most once. A state of the search
is a position with the set of parts used so far, written as the bits of a number. From a state the
search may go on with any unused part that consumes something; a part that matches nothing where it
stands counts as present without being used. States are visited depth first, each once, and the
last successor found is visited first.
-/

namespace CssSieve

/-- The most parts that a group may have. -/
def maxGroupParts : Nat := 64

/-- What has been found so far: the states visited, the ends from the greatest to the least, and
the faults met. -/
structure Exploration where
  visited : List (Nat × Nat)
  ends : List Nat
  faults : Furthest Fault

/-- Adds an end to a list from the greatest to the least, without repeating it. -/
def insertEnd (e : Nat) : List Nat → List Nat
  | [] => [e]
  | d :: ds => if d < e then e :: d :: ds else if d = e then d :: ds else d :: insertEnd e ds

theorem mem_insertEnd {e d : Nat} {es : List Nat} : d ∈ insertEnd e es ↔ d = e ∨ d ∈ es := by
  induction es with
  | nil => simp [insertEnd]
  | cons c cs ih =>
      rw [insertEnd]
      split
      next => simp
      next =>
        split
        next h => simp [h]
        next => simp [ih, or_left_comm]

theorem sorted_insertEnd {e : Nat} {es : List Nat} (h : es.Pairwise (· > ·)) :
    (insertEnd e es).Pairwise (· > ·) := by
  induction es with
  | nil => simp [insertEnd]
  | cons c cs ih =>
      obtain ⟨hc, hcs⟩ := List.pairwise_cons.mp h
      rw [insertEnd]
      split
      next he =>
        refine List.pairwise_cons.mpr ⟨fun d hd => ?_, h⟩
        rcases List.mem_cons.mp hd with rfl | hd
        · exact he
        · exact Nat.lt_trans (hc d hd) he
      next he =>
        split
        next => exact h
        next hne =>
          refine List.pairwise_cons.mpr ⟨fun d hd => ?_, ih hcs⟩
          rcases mem_insertEnd.mp hd with rfl | hd
          · omega
          · exact hc d hd

namespace Search

/-- What the unused parts find at a position, each with its index. -/
def tryUnused (parts : List (Search × Nat)) (values : List Value) (pos used : Nat) :
    List (Outcome × Nat) :=
  (parts.filter fun p => !used.testBit p.2).map fun p => (p.1 values pos, p.2)

/-- Whether the search may stop. If all parts are required, every unused one has to match nothing;
otherwise something must have been used, or some part has to match nothing. -/
def mayStop (allRequired : Bool) (pos used : Nat) (tries : List (Outcome × Nat)) : Bool :=
  if allRequired then tries.all (·.1.ends.contains pos)
  else used != 0 || tries.any (·.1.ends.contains pos)

/-- The states reached by using one more part. -/
def successors (pos used : Nat) (tries : List (Outcome × Nat)) : List (Nat × Nat) :=
  tries.flatMap fun t => (t.1.ends.filter (· != pos)).map (·, used ||| 1 <<< t.2)

/-- Visits a state and what can be reached from it with at most `unused` more parts. -/
def explore (allRequired : Bool) (parts : List (Search × Nat)) (values : List Value) :
    (unused : Nat) → (state : Nat × Nat) → Exploration → Exploration
  | unused, state, x =>
    if x.visited.contains state then x
    else
      let tries := tryUnused parts values state.1 state.2
      let x : Exploration :=
        { visited := state :: x.visited
          ends := if mayStop allRequired state.1 state.2 tries then insertEnd state.1 x.ends
            else x.ends
          faults := tries.foldl (fun f t => f ++ t.1.faults) x.faults }
      match unused with
      | 0 => x
      | n + 1 =>
        (successors state.1 state.2 tries).foldr (explore allRequired parts values n) x

/-- All parts, or some of them, in any order. -/
def anyOrder (allRequired : Bool) (parts : List Search) : Search := fun values start =>
  let found := explore allRequired parts.zipIdx values parts.length (start, 0) ⟨[], [], ∅⟩
  ⟨found.ends, found.faults⟩

end Search

end CssSieve
