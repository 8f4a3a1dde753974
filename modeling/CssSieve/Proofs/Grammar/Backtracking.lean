import CssSieve.Proofs.Grammar.Greedy
import CssSieve.Proofs.Grammar.Threading

/-!
# Sequences are searched as if by backtracking

The obvious way to match a sequence is to try every end of the first part in turn, and from each of
them every way through the other parts. There can be exponentially many ways. The search of a
sequence goes part by part instead and keeps every position once. That changes neither the ends nor
their order: the ends of a sequence are those of all ways, each where it occurs first.
-/

namespace CssSieve

/-! ## First occurrences -/

theorem distinct_filter (keep : Nat → Bool) (es : List Nat) :
    distinct (es.filter keep) = (distinct es).filter keep := by
  induction es with
  | nil => rfl
  | cons e es ih =>
      rw [distinct, List.filter_cons, List.filter_cons]
      split
      next => rw [distinct, ih, List.filter_filter, List.filter_filter]; simp only [Bool.and_comm]
      next dropped =>
        rw [ih, List.filter_filter]
        apply List.filter_congr
        intro d _
        by_cases same : d = e
        · simp [same, dropped]
        · simp [same]

/-- Of what `e` contributes nothing is left, so `e` may be left out. -/
theorem filter_flatMap_of_ne (f : Nat → List Nat) (e : Nat) (es : List Nat) :
    ((es.filter (· != e)).flatMap f).filter (· ∉ f e) = (es.flatMap f).filter (· ∉ f e) := by
  induction es with
  | nil => rfl
  | cons d es ih =>
      rw [List.flatMap_cons, List.filter_append, ← ih, List.filter_cons]
      by_cases same : d = e
      · subst same
        simp
      · simp [same]

/-- **Repeated positions lead nowhere new**: what is reached from them was reached from their first
occurrence. -/
theorem distinct_flatMap_distinct (f : Nat → List Nat) (es : List Nat) :
    distinct ((distinct es).flatMap f) = distinct (es.flatMap f) := by
  induction es with
  | nil => rfl
  | cons e es ih =>
      have others : (distinct (((distinct es).filter (· != e)).flatMap f)).filter (· ∉ f e) =
          (distinct (es.flatMap f)).filter (· ∉ f e) := by
        rw [← distinct_filter, filter_flatMap_of_ne, distinct_filter, ih]
      rw [distinct, List.flatMap_cons, distinct_append, others, List.flatMap_cons, distinct_append]

namespace Search

/-! ## All ways through a sequence -/

/-- All ways through parts that come behind others, with the end of each. -/
def waysOn (commas : Bool) (values : List Value) : List Search → Nat → List Nat
  | [], pos => [pos]
  | part :: parts, pos =>
    match afterGap? commas values pos with
    | some p => (part values p).ends.flatMap (waysOn commas values parts)
    | none => []

/-- All ways through the parts of a sequence, with the end of each: from every end of the first
part in its order, all ways through the others. -/
def ways (commas : Bool) (values : List Value) : List Search → Nat → List Nat
  | [], start => [start]
  | part :: parts, start => (part values start).ends.flatMap (waysOn commas values parts)

variable {commas : Bool} {values : List Value}

theorem waysOn_cons (part : Search) (parts : List Search) (pos : Nat) :
    waysOn commas values (part :: parts) pos =
      (onceMore part commas values pos).ends.flatMap (waysOn commas values parts) := by
  rw [waysOn, onceMore]
  cases afterGap? commas values pos with
  | some p => rfl
  | none => rfl

theorem ends_fromEach (part : Search) (positions : List Nat) :
    (fromEach commas part values positions).ends =
      distinct (positions.flatMap fun pos => (onceMore part commas values pos).ends) := by
  have gathered := Outcome.gather_eq (onceMore part commas values) positions
  exact congrArg (fun found => distinct (Outcome.ends found)) gathered

theorem ends_inOrderFrom (parts : List Search) (positions : List Nat) :
    (inOrderFrom commas values parts (distinct positions)).ends =
      distinct (positions.flatMap (waysOn commas values parts)) := by
  induction parts generalizing positions with
  | nil =>
      have stay : waysOn commas values [] = fun pos => [pos] := rfl
      rw [stay, List.flatMap_singleton']
      rfl
  | cons part parts ih =>
      have step : waysOn commas values (part :: parts) = fun pos =>
          (onceMore part commas values pos).ends.flatMap (waysOn commas values parts) :=
        funext (waysOn_cons part parts)
      -- the next part is tried once from each position, however many ways lead there
      calc (inOrderFrom commas values (part :: parts) (distinct positions)).ends
          = (inOrderFrom commas values parts (distinct ((distinct positions).flatMap
              fun pos => (onceMore part commas values pos).ends))).ends := by
            rw [inOrderFrom, ends_fromEach]
        _ = distinct ((distinct positions).flatMap (waysOn commas values (part :: parts))) := by
            rw [ih, List.flatMap_assoc, step]
        _ = distinct (positions.flatMap (waysOn commas values (part :: parts))) :=
            distinct_flatMap_distinct _ _

/-- **A sequence is searched as if by backtracking.** Its ends are those of all ways through its
parts, with or without commas between them, each end where it occurs first. -/
theorem ends_inOrder_eq_distinct_ways (commas : Bool) (parts : List Search) (values : List Value)
    (start : Nat) :
    (inOrder commas parts values start).ends = distinct (ways commas values parts start) := by
  cases parts with
  | nil => rfl
  | cons part parts =>
      have reached : (fromEach false part values [start]).ends =
          distinct (part values start).ends := by
        rw [ends_fromEach, List.flatMap_singleton]
        rfl
      calc (inOrder commas (part :: parts) values start).ends
          = (inOrderFrom commas values parts (distinct (part values start).ends)).ends := by
            rw [inOrder, reached]
        _ = distinct (ways commas values (part :: parts) start) := ends_inOrderFrom parts _

end Search

end CssSieve
