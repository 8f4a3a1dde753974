import CssSieve.Grammar.Basic

/-!
# Searches that hand on a record

A search gives its faults back beside its ends. Here is the same search carried out with one record
of hints that is handed from part to part: each part notes its own faults in it, and a part is asked
only as far as its answer is needed, so a part of a group in any order is asked up to twice at a
position. The productions are those of `Search`, in the same order.
-/

namespace CssSieve

/-- What a failed branch leaves behind in words. -/
structure Hint where
  code : Code
  message : String
deriving DecidableEq

def Fault.hint (fault : Fault) : Hint := ⟨fault.code, fault.message⟩

/-- A computation that notes hints in a record that is handed on to it. -/
abbrev Noting := StateM (Furthest Hint)

/-- A search that is handed a record. -/
abbrev Threaded := List Value → Nat → Noting (List Nat)

/-- Notes a fault. -/
def note (offset : Nat) (fault : Fault) : Noting Unit := modify (·.record offset fault.hint)

/-- What is found for the members of a list, one after the other. -/
def collect {α β : Type} (f : α → Noting (List β)) : List α → Noting (List β)
  | [] => pure []
  | a :: as => do
    let here ← f a
    let others ← collect f as
    pure (here ++ others)

/-! ## Productions with a record -/

namespace Threaded

/-- A search that has no faults to note. -/
def quiet (s : Search) : Threaded := fun values start => pure (s values start).ends

/-- Whether some end leaves nothing but white space, found out with a record of its own. -/
def matchesAll (s : Threaded) (values : List Value) : Bool :=
  ((s values 0).run ∅).1.any fun e => skipWhitespace values e == values.length

def group (inside : Value → Option (List Value)) (fault : Fault) (contents : Threaded) : Threaded :=
  fun values start =>
    match nextValue? values start with
    | some (i, v) =>
      match inside v with
      | some vs =>
        if contents.matchesAll vs then pure [i + 1]
        else do
          note i fault
          pure []
      | none => pure []
    | none => pure []

def oneOf (parts : List Threaded) : Threaded := fun values start => do
  let ends ← collect (fun part => part values start) parts
  pure (distinct ends)

def onceMore (part : Threaded) (comma : Bool) (values : List Value) (pos : Nat) :
    Noting (List Nat) :=
  match afterGap? comma values pos with
  | some p => part values p
  | none => pure []

def fromEach (comma : Bool) (part : Threaded) (values : List Value) (positions : List Nat) :
    Noting (List Nat) := do
  let ends ← collect (onceMore part comma values) positions
  pure (distinct ends)

def inOrderFrom (commas : Bool) (values : List Value) :
    List Threaded → List Nat → Noting (List Nat)
  | [], positions => pure positions
  | part :: parts, positions => do
    let reached ← fromEach commas part values positions
    inOrderFrom commas values parts reached

def inOrder (commas : Bool) (parts : List Threaded) : Threaded := fun values start =>
  match parts with
  | [] => pure [start]
  | part :: parts => do
    let reached ← fromEach false part values [start]
    inOrderFrom commas values parts reached

/-- The ends of one more repetition that lie further on, and where it matched nothing. -/
def rung (part : Threaded) (comma : Bool) (values : List Value) :
    List Nat → Noting (List Nat × List Nat)
  | [] => pure ([], [])
  | pos :: rest => do
    let here ← onceMore part comma values pos
    let others ← rung part comma values rest
    pure (here.filter (· != pos) ++ others.1, here.filter (· == pos) ++ others.2)

/-- The ends of each level, and where a repetition matched nothing. -/
def climb (m : Multiplier) (part : Threaded) (values : List Value) :
    (steps count : Nat) → (tried level : List Nat) → Noting (List (List Nat) × List Nat)
  | 0, _, _, level => pure ([level], [])
  | steps + 1, count, tried, level =>
    if m.allows (count + 1) then do
      let fresh := if m.forgetsCount count then level.filter (!tried.contains ·) else level
      let tried := if m.forgetsCount count then tried ++ fresh else tried
      let above ← rung part (m.commas && count != 0) values fresh
      let next := distinct above.1
      if next.isEmpty then pure ([level], above.2)
      else do
        let rest ← climb m part values steps (count + 1) tried next
        pure (level :: rest.1, above.2 ++ rest.2)
    else pure ([level], [])

def repeated (m : Multiplier) (part : Threaded) : Threaded := fun values start => do
  let all ← climb m part values (values.length - start + 1) 0 [] [start]
  let ends := distinct ((all.1.drop m.least).reverse.flatten ++ all.2)
  let found := all.1.length - 1
  if ends.isEmpty && found != 0 then do
    note (all.1.flatten.foldl max start) (.repetitions m.least found)
    pure ends
  else pure ends

/-- The unused parts as they are asked at a position, each with its index. -/
def unused (parts : List (Threaded × Nat)) (values : List Value) (pos used : Nat) :
    List (Noting (List Nat) × Nat) :=
  (parts.filter fun p => !used.testBit p.2).map fun p => (p.1 values pos, p.2)

/-- Whether a part matches nothing at a position. -/
def blank (pos : Nat) (ask : Noting (List Nat) × Nat) : Noting Bool := do
  let ends ← ask.1
  pure (ends.contains pos)

/-- Whether the search may stop. No part is asked when the answer is known. -/
def mayStop (allRequired : Bool) (pos used : Nat) (asks : List (Noting (List Nat) × Nat)) :
    Noting Bool :=
  if allRequired then asks.allM (blank pos)
  else if used != 0 then pure true
  else asks.anyM (blank pos)

/-- The states reached by using one more part. -/
def successors (pos used : Nat) (asks : List (Noting (List Nat) × Nat)) :
    Noting (List (Nat × Nat)) :=
  collect (fun ask => do
    let ends ← ask.1
    pure ((ends.filter (· != pos)).map (·, used ||| 1 <<< ask.2))) asks

/-- Visits a state. Gives the states visited and the ends found so far, and where to go on. -/
def visit (allRequired : Bool) (parts : List (Threaded × Nat)) (values : List Value)
    (state : Nat × Nat) (found : List (Nat × Nat) × List Nat) :
    Noting ((List (Nat × Nat) × List Nat) × List (Nat × Nat)) := do
  let asks := unused parts values state.1 state.2
  let stops ← mayStop allRequired state.1 state.2 asks
  let next ← successors state.1 state.2 asks
  pure ((state :: found.1, if stops then insertEnd state.1 found.2 else found.2), next)

/-- Visits a state and what can be reached from it with at most `left` more parts. -/
def explore (allRequired : Bool) (parts : List (Threaded × Nat)) (values : List Value) :
    (left : Nat) → (state : Nat × Nat) → List (Nat × Nat) × List Nat →
      Noting (List (Nat × Nat) × List Nat)
  | left, state, found =>
    if found.1.contains state then pure found
    else do
      let visited ← visit allRequired parts values state found
      match left with
      | 0 => pure visited.1
      | n + 1 => visited.2.foldrM (explore allRequired parts values n) visited.1

def anyOrder (allRequired : Bool) (parts : List Threaded) : Threaded := fun values start => do
  let found ← explore allRequired parts.zipIdx values parts.length (start, 0) ([], [])
  pure found.2

end Threaded

namespace Grammar

mutual

/-- The search of a grammar, with a record that is handed on. -/
def threaded : Grammar → Threaded
  | keyword words => Threaded.quiet (Search.one (acceptsKeyword words))
  | token kind test => Threaded.quiet (Search.one (acceptsToken kind test))
  | customProperty => Threaded.quiet (Search.one acceptsCustomProperty)
  | delim chars => Threaded.quiet (Search.one (acceptsDelim chars))
  | whitespace required => Threaded.quiet (Search.whitespace required)
  | noWhitespace => Threaded.quiet Search.noWhitespace
  | function name g => Threaded.group (argumentsOf? name) (.arguments name) g.threaded
  | block opener g => Threaded.group (contentsOf? opener) (.contents opener) g.threaded
  | oneOf gs => Threaded.oneOf (threadeds gs)
  | inOrder commas gs => Threaded.inOrder commas (threadeds gs)
  | repeated m g => Threaded.repeated m g.threaded
  | anyOrder all gs => Threaded.anyOrder all (threadeds gs)

def threadeds : List Grammar → List Threaded
  | [] => []
  | g :: gs => g.threaded :: threadeds gs

end

end Grammar

end CssSieve
