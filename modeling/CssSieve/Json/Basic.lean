/-!
# JSON values

The members of an object keep their order. A number written as an integer is kept apart from one
with a fraction or an exponent, since some places admit only the former. What is well formed but has
no value is kept as well, for it does no harm where nobody asks for it.
-/

namespace CssSieve

inductive Json where
  | null
  | bool (value : Bool)
  /-- A number written without a fraction and an exponent. -/
  | int (value : Int)
  /-- Any other number. -/
  | float (value : Float)
  | string (value : String)
  | array (items : List Json)
  | object (members : List (String × Json))
  /-- What is well formed but has no value: a number that is too large, a string with half a
  surrogate pair, an object with such a key, an array or object inside too many others. -/
  | unusable

namespace Json

instance : Inhabited Json := ⟨null⟩

/-! ## Views -/

/-- The members of an object. -/
def members? : Json → Option (List (String × Json))
  | object ms => some ms
  | _ => none

/-- The member of an object with a key. -/
def member? (j : Json) (key : String) : Option Json := do
  let ms ← j.members?
  (ms.find? (·.1 == key)).map (·.2)

def items? : Json → Option (List Json)
  | array js => some js
  | _ => none

def string? : Json → Option String
  | string s => some s
  | _ => none

def bool? : Json → Option Bool
  | bool b => some b
  | _ => none

/-- Any number that can be written. -/
def float? : Json → Option Float
  | float x => if x.isFinite then some x else none
  | int i => some (Float.ofInt i)
  | _ => none

/-- An integer of sixty-four bits with a sign. -/
def int64? : Json → Option Int
  | int i => if Int64.minValue.toInt ≤ i ∧ i ≤ Int64.maxValue.toInt then some i else none
  | _ => none

/-- An integer of sixty-four bits without a sign. -/
def nat64? : Json → Option Nat
  | int i => if 0 ≤ i ∧ i.toNat < UInt64.size then some i.toNat else none
  | _ => none

/-- A string of exactly one character. -/
def char? : Json → Option Char
  | string s =>
    match s.toList with
    | [c] => some c
    | _ => none
  | _ => none

/-- A list whose items can all be decoded. -/
def list? {α : Type} (decode : Json → Option α) (j : Json) : Option (List α) := do
  (← j.items?).mapM decode

/-- A tagged value: the tag alone, or an object whose only member has the tag as its key. -/
def tagged? : Json → Option (String × Option Json)
  | string tag => some (tag, none)
  | object [(tag, payload)] => some (tag, some payload)
  | _ => none

/-- A tag that carries nothing: alone, or with `null`. -/
def tag? (j : Json) : Option String := do
  match ← j.tagged? with
  | (tag, none) | (tag, some null) => some tag
  | _ => none

/-- A value with its tag. -/
def tag (name : String) (payload : Json) : Json := object [(name, payload)]

end Json

end CssSieve
