import CssSieve.Proofs.Grammar.Advancing
import CssSieve.Proofs.Grammar.Shifting
import CssSieve.Proofs.Grammar.Threading

/-!
# What a search promises

Every production relies on the same promises of its parts, and makes them in turn: no end is given
twice, no end lies behind the start or past the last value, only what follows the start is looked
at, and a record that is handed on changes nothing about the ends. What is left to be shown is the
first of these; `search_contract` puts them together for every grammar.
-/

namespace CssSieve

namespace Search

/-- No end is given twice. -/
def Unrepeated (search : Search) : Prop := ∀ values start, (search values start).ends.Nodup

/-! ## Single values -/

theorem unrepeated_one (accepts : Value → Bool) : (one accepts).Unrepeated := by
  intro values start
  rw [one]
  split
  next =>
    split
    next => exact List.nodup_singleton _
    next => exact List.nodup_nil
  next => exact List.nodup_nil

theorem unrepeated_group (inside : Value → Option (List Value)) (fault : Fault)
    (contents : Search) : (group inside fault contents).Unrepeated := by
  intro values start
  rw [group]
  cases nextValue? values start with
  | none => exact List.nodup_nil
  | some found =>
      dsimp only
      cases inside found.2 with
      | none => exact List.nodup_nil
      | some vs =>
          dsimp only
          split
          next => exact List.nodup_singleton _
          next => exact List.nodup_nil

theorem unrepeated_whitespace (required : Bool) : (whitespace required).Unrepeated := by
  intro values start
  rw [whitespace]
  split
  next => exact List.nodup_nil
  next => exact List.nodup_singleton _

theorem unrepeated_noWhitespace : noWhitespace.Unrepeated := by
  intro values start
  rw [noWhitespace]
  split
  next => exact List.nodup_nil
  next => exact List.nodup_singleton start

/-! ## Combinators

What several parts or several positions contribute is made distinct where it is brought together, so
nothing is asked of the parts. -/

theorem unrepeated_oneOf (parts : List Search) : (oneOf parts).Unrepeated := by
  intro values start
  exact nodup_distinct _

theorem nodup_inOrderFrom (commas : Bool) (values : List Value) (parts : List Search)
    {positions : List Nat} (h : positions.Nodup) :
    (inOrderFrom commas values parts positions).ends.Nodup := by
  induction parts generalizing positions with
  | nil => exact h
  | cons part parts ih =>
      have reached : (fromEach commas part values positions).ends.Nodup := nodup_distinct _
      exact ih reached

theorem unrepeated_inOrder (commas : Bool) (parts : List Search) :
    (inOrder commas parts).Unrepeated := by
  intro values start
  cases parts with
  | nil => exact List.nodup_singleton start
  | cons part parts =>
      have reached : (fromEach false part values [start]).ends.Nodup := nodup_distinct _
      exact nodup_inOrderFrom commas values parts reached

theorem unrepeated_repeated (m : Multiplier) (part : Search) : (repeated m part).Unrepeated := by
  intro values start
  rw [repeated]
  split
  next => exact nodup_distinct _
  next => exact nodup_distinct _

variable {parts : List (Search × Nat)} {values : List Value} {allRequired : Bool}

theorem sorted_visit {x : Exploration} (h : x.ends.Pairwise (· > ·)) (state : Nat × Nat) :
    (visit parts values allRequired state x).ends.Pairwise (· > ·) := by
  simp only [visit]
  split
  next => exact sorted_insertEnd h
  next => exact h

theorem sorted_explore {x : Exploration} (h : x.ends.Pairwise (· > ·)) (n : Nat)
    (state : Nat × Nat) : (explore allRequired parts values n state x).ends.Pairwise (· > ·) :=
  explore_preserves (motive := fun y => y.ends.Pairwise (· > ·))
    (fun _ sorted => sorted_visit sorted _) (fun _ _ => trivial) trivial h

/-- The ends stand from the greatest to the least, so each is there once. -/
theorem unrepeated_anyOrder (allRequired : Bool) (parts : List Search) :
    (anyOrder allRequired parts).Unrepeated := by
  intro values start
  have sorted : (explored allRequired parts values start).ends.Pairwise (· > ·) :=
    sorted_explore List.Pairwise.nil _ _
  exact sorted.imp Nat.ne_of_gt

end Search

namespace Grammar

theorem unrepeated_search (g : Grammar) : Search.Unrepeated g.search := by
  cases g with
  | keyword words => exact Search.unrepeated_one (acceptsKeyword words)
  | token kind test => exact Search.unrepeated_one (acceptsToken kind test)
  | customProperty => exact Search.unrepeated_one acceptsCustomProperty
  | delim chars => exact Search.unrepeated_one (acceptsDelim chars)
  | whitespace required => exact Search.unrepeated_whitespace required
  | noWhitespace => exact Search.unrepeated_noWhitespace
  | function name g => exact Search.unrepeated_group (argumentsOf? name) (.arguments name) g.search
  | block opener g => exact Search.unrepeated_group (contentsOf? opener) (.contents opener) g.search
  | oneOf gs => exact Search.unrepeated_oneOf (searches gs)
  | inOrder commas gs => exact Search.unrepeated_inOrder commas (searches gs)
  | repeated m g => exact Search.unrepeated_repeated m g.search
  | anyOrder all gs => exact Search.unrepeated_anyOrder all (searches gs)

/-- Whatever record is handed on, the ends are those of the search, and its faults are noted behind
what was there. -/
theorem run_threaded (g : Grammar) (values : List Value) (start : Nat) (before : Furthest Hint) :
    (g.threaded values start).run before =
      (g.ends values start, before ++ (g.search values start).faults.map Fault.hint) := by
  rw [threaded_eq]
  rfl

/-- With other values in front, the hints that an empty record is left with are moved by as many
positions. -/
theorem hints_append (g : Grammar) (front values : List Value) (start : Nat) :
    ((g.threaded (front ++ values) (front.length + start)).run ∅).2 =
      ((g.threaded values start).run ∅).2.shift front.length := by
  have moved : g.search (front ++ values) (front.length + start) =
      (g.search values start).shift front.length := looksAhead_search g front values start
  rw [run_threaded, run_threaded, moved, Furthest.shift_append, Furthest.shift_empty,
    Furthest.shift_map]
  rfl

/-- **What a search promises.** From any start, also past the end of the values, and with any record
that is handed on, a search finds each end once; an end is the start, or lies further on within the
values. The ends do not depend on the record. With other values in front, they are moved by as many
positions, and so are the hints that an empty record is left with. -/
theorem search_contract (g : Grammar) (values : List Value) (start : Nat)
    (before : Furthest Hint) :
    let found := (g.threaded values start).run before
    found.1.Nodup ∧
      (∀ e ∈ found.1, e = start ∨ start < e ∧ e ≤ values.length) ∧
      found = (g.ends values start, before ++ (g.search values start).faults.map Fault.hint) ∧
      ∀ front : List Value,
        ((g.threaded (front ++ values) (front.length + start)).run before).1 =
            found.1.map (front.length + ·) ∧
          ((g.threaded (front ++ values) (front.length + start)).run ∅).2.toList =
            ((g.threaded values start).run ∅).2.toList.map
              fun hint => (front.length + hint.1, hint.2) := by
  intro found
  have same : found = (g.ends values start, before ++ (g.search values start).faults.map Fault.hint) :=
    run_threaded g values start before
  rw [same]
  refine ⟨unrepeated_search g values start, fun e => ends_forward g, rfl, ?_⟩
  intro front
  constructor
  · rw [run_threaded]
    exact congrArg Outcome.ends (looksAhead_search g front values start)
  · rw [hints_append]
    exact Furthest.toList_shift _

end Grammar

end CssSieve
