import CssSieve.Diagnostic.Basic
import CssSieve.Grammar.Furthest
import CssSieve.Text.Ascii
import CssSieve.Value.Basic

/-!
# Searches

A search is asked where it can stop, not whether it matches: from a start position in a list of
component values it gives every end it can reach, most preferred first. An end equal to the start
is a match of nothing and a success. Giving all ends is what lets a sequence fall back on a shorter
match of an earlier part when the longest one leaves nothing for a later part.

White space before a value is passed over by whoever consumes the value.
-/

namespace CssSieve

/-- Why a branch of a search failed, where that can be explained. -/
inductive Fault where
  /-- The name of a function fits, its arguments do not. -/
  | arguments (function : String)
  /-- The bracket of a block fits, its contents do not. -/
  | contents (opener : Char)
  /-- Something is repeated, but not often enough. -/
  | repetitions (least found : Nat)
deriving DecidableEq, Repr

namespace Fault

def code : Fault → Code
  | arguments _ | contents _ => .malformedFunctionArguments
  | repetitions _ _ => .missingRequiredRepetition

def message : Fault → String
  | arguments function => s!"invalid arguments to {function}()"
  | contents opener => s!"invalid contents in {opener}-block"
  | repetitions least found => s!"expected at least {least} repetitions, found {found}"

end Fault

/-- The ends that a search reached, in order of preference, and the faults it met furthest on. -/
structure Outcome where
  ends : List Nat
  faults : Furthest Fault

/-- A search in a list of values from a start position. -/
abbrev Search := List Value → Nat → Outcome

/-! ## Lists of ends -/

/-- The list with every repeated entry left out, the first occurrence kept. -/
def distinct : List Nat → List Nat
  | [] => []
  | e :: es => e :: (distinct es).filter (· != e)

theorem mem_distinct {e : Nat} {es : List Nat} : e ∈ distinct es ↔ e ∈ es := by
  induction es with
  | nil => simp [distinct]
  | cons d ds ih => by_cases h : e = d <;> simp [distinct, h, ih]

theorem nodup_distinct (es : List Nat) : (distinct es).Nodup := by
  induction es with
  | nil => simp [distinct]
  | cons d ds ih =>
      rw [distinct, List.nodup_cons]
      exact ⟨by simp, ih.filter _⟩

namespace Outcome

/-- No end. -/
def fail : Outcome := ⟨[], ∅⟩

/-- One end. -/
def stop (e : Nat) : Outcome := ⟨[e], ∅⟩

/-- No end, and why. -/
def faultAt (offset : Nat) (fault : Fault) : Outcome :=
  ⟨[], (∅ : Furthest Fault).record offset fault⟩

/-- The ends of one search, then those of another. -/
def append (a b : Outcome) : Outcome := ⟨a.ends ++ b.ends, a.faults ++ b.faults⟩

/-- The outcomes for all members of a list, one after the other. -/
def gather {α : Type} (f : α → Outcome) : List α → Outcome
  | [] => fail
  | a :: as => append (f a) (gather f as)

/-- Every end once. -/
def dedup (a : Outcome) : Outcome := ⟨distinct a.ends, a.faults⟩

end Outcome

/-! ## Positions in a list of values -/

/-- The position of the first value other than white space, from `pos` on. -/
def skipWhitespace (values : List Value) (pos : Nat) : Nat :=
  pos + ((values.drop pos).takeWhile Value.isWhitespace).length

/-- The next value other than white space, with its position. -/
def nextValue? (values : List Value) (pos : Nat) : Option (Nat × Value) :=
  let i := skipWhitespace values pos
  values[i]?.map (i, ·)

/-- The position behind the next value, if that is a comma. -/
def afterComma? (values : List Value) (pos : Nat) : Option Nat :=
  match nextValue? values pos with
  | some (i, v) => if v.isComma then some (i + 1) else none
  | none => none

/-- Where the next part begins: behind a comma where one is called for, else right here. -/
def afterGap? (comma : Bool) (values : List Value) (pos : Nat) : Option Nat :=
  if comma then afterComma? values pos else some pos

namespace Search

/-- Whether some end leaves nothing but white space. -/
def matchesAll (s : Search) (values : List Value) : Bool :=
  (s values 0).ends.any fun e => skipWhitespace values e == values.length

/-- The preferred end. -/
def preferred? (s : Search) (values : List Value) (start : Nat) : Option Nat :=
  (s values start).ends.head?

/-! ## Single values -/

/-- One value that is accepted. -/
def one (accepts : Value → Bool) : Search := fun values start =>
  match nextValue? values start with
  | some (i, v) => if accepts v then .stop (i + 1) else .fail
  | none => .fail

/-- One group whose contents are matched from end to end. `inside` gives the contents of the groups
looked for; contents that do not match are a fault at the group. -/
def group (inside : Value → Option (List Value)) (fault : Fault) (contents : Search) : Search :=
  fun values start =>
    match nextValue? values start with
    | some (i, v) =>
      match inside v with
      | some vs => if contents.matchesAll vs then .stop (i + 1) else .faultAt i fault
      | none => .fail
    | none => .fail

/-- White space, which must be there if it is required. -/
def whitespace (required : Bool) : Search := fun values start =>
  let e := skipWhitespace values start
  if required && e == start then .fail else .stop e

/-- Nothing, where no white space follows. -/
def noWhitespace : Search := fun values start =>
  if (values[start]?.map Value.isWhitespace).getD false then .fail else .stop start

/-! ## Alternatives and sequences -/

/-- Any one of several searches; the ends of the first come first. -/
def oneOf (parts : List Search) : Search := fun values start =>
  (Outcome.gather (fun part => part values start) parts).dedup

/-- One part, from every position where the parts before it can stop. -/
def fromEach (comma : Bool) (part : Search) (values : List Value) (positions : List Nat) :
    Outcome :=
  (Outcome.gather
    (fun pos =>
      match afterGap? comma values pos with
      | some p => part values p
      | none => .fail)
    positions).dedup

/-- Carries on from every position with the parts that are left. -/
def inOrderFrom (commas : Bool) (values : List Value) : List Search → List Nat → Outcome
  | [], positions => ⟨positions, ∅⟩
  | part :: parts, positions =>
    let reached := fromEach commas part values positions
    let rest := Search.inOrderFrom commas values parts reached.ends
    ⟨rest.ends, reached.faults ++ rest.faults⟩

/-- All parts in order, with one comma between neighbours if commas are called for. -/
def inOrder (commas : Bool) (parts : List Search) : Search := fun values start =>
  match parts with
  | [] => .stop start
  | part :: parts =>
    let reached := fromEach false part values [start]
    let rest := Search.inOrderFrom commas values parts reached.ends
    ⟨rest.ends, reached.faults ++ rest.faults⟩

end Search

end CssSieve
