import CssSieve.Grammar.Search

/-!
# Repetitions

The multipliers `?`, `*`, `+`, `{A,B}` and `#`. The search climbs level by level: level `n` holds
the ends reached with exactly `n` repetitions that each consumed something. Every repetition moves
on, so the levels end after at most as many steps as there are values left, also for a part that
can match nothing. Ends of higher levels are preferred.

A repetition that matches nothing can be repeated until the least count is reached, so it is an end
at every level. Once the least count is reached and there is no greatest one, the count no longer
matters, and a position that was tried before is not tried again.
-/

namespace CssSieve

/-- How often something is repeated, and whether commas stand between the repetitions. -/
structure Multiplier where
  least : Nat
  /-- The greatest count, if there is one. -/
  greatest : Option Nat
  commas : Bool
deriving DecidableEq, Repr

namespace Multiplier

def allows (m : Multiplier) (count : Nat) : Bool :=
  match m.greatest with
  | some n => count ≤ n
  | none => true

/-- Whether positions tried before need not be tried again after `count` repetitions. -/
def forgetsCount (m : Multiplier) (count : Nat) : Bool :=
  m.greatest.isNone && m.least ≤ count

end Multiplier

/-- What one more repetition finds from the positions of a level. -/
structure Rung where
  /-- The ends that lie further on. -/
  ends : List Nat
  /-- Where the repetition matched nothing. -/
  blanks : List Nat
  faults : Furthest Fault

/-- The levels of a repetition from some count on. -/
structure Levels where
  /-- The ends of each level, lowest count first. -/
  levels : List (List Nat)
  /-- Where a repetition matched nothing. -/
  blanks : List Nat
  faults : Furthest Fault

namespace Search

/-- The ends of one more repetition, from a single position. The position itself is no progress. -/
def onceMore (part : Search) (comma : Bool) (values : List Value) (pos : Nat) : Outcome :=
  match afterGap? comma values pos with
  | some p => part values p
  | none => .fail

/-- One more repetition from the positions of a level that are to be tried. -/
def rung (part : Search) (comma : Bool) (values : List Value) : List Nat → Rung
  | [] => ⟨[], [], ∅⟩
  | pos :: rest =>
    let here := onceMore part comma values pos
    let others := rung part comma values rest
    ⟨here.ends.filter (· != pos) ++ others.ends,
      here.ends.filter (· == pos) ++ others.blanks,
      here.faults ++ others.faults⟩

/-- Climbs from a level. `steps` bounds how many levels are added; `tried` holds the positions that
need not be tried again. -/
def climb (m : Multiplier) (part : Search) (values : List Value) :
    (steps count : Nat) → (tried level : List Nat) → Levels
  | 0, _, _, level => ⟨[level], [], ∅⟩
  | steps + 1, count, tried, level =>
    if m.allows (count + 1) then
      let fresh := if m.forgetsCount count then level.filter (!tried.contains ·) else level
      let tried := if m.forgetsCount count then tried ++ fresh else tried
      let above := rung part (m.commas && count != 0) values fresh
      let next := distinct above.ends
      if next.isEmpty then ⟨[level], above.blanks, above.faults⟩
      else
        let rest := climb m part values steps (count + 1) tried next
        ⟨level :: rest.levels, above.blanks ++ rest.blanks, above.faults ++ rest.faults⟩
    else ⟨[level], [], ∅⟩

/-- All levels from a start position. -/
def levelsFrom (m : Multiplier) (part : Search) (values : List Value) (start : Nat) : Levels :=
  climb m part values (values.length - start + 1) 0 [] [start]

/-- A part repeated as often as the multiplier says. Where repetitions were found but too few, that
is a fault at the furthest end. -/
def repeated (m : Multiplier) (part : Search) : Search := fun values start =>
  let all := levelsFrom m part values start
  let ends := distinct ((all.levels.drop m.least).reverse.flatten ++ all.blanks)
  let found := all.levels.length - 1
  if ends.isEmpty && found != 0 then
    ⟨ends, all.faults.record (all.levels.flatten.foldl max start) (.repetitions m.least found)⟩
  else ⟨ends, all.faults⟩

end Search

end CssSieve
