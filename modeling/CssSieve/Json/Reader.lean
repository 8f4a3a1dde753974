import CssSieve.Json.Lexeme

/-!
# Reading JSON text

Lexemes are put together by an automaton with the containers that are still open on a stack. A text
is refused when it is no single JSON value. A part of it that is well formed but has no value spoils
only the value around it that needs it: a key, its object; anything else, whoever looks at it.
-/

namespace CssSieve.Json

/-- How deeply arrays and objects may nest and still have a value. -/
def maxDepth : Nat := 127

/-- A container that has not been closed. Items and members are kept last one first. -/
inductive OpenContainer where
  | array (items : List Json)
  /-- The key whose value is being read stands apart. -/
  | object (members : List (Option String × Json)) (key : Option String)

/-- What may come next. -/
inductive Expected where
  /-- A value. -/
  | value
  /-- A value, or the end of the array that was just opened. -/
  | valueOrEnd
  /-- A key. -/
  | key (members : List (Option String × Json))
  /-- A key, or the end of the object that was just opened. -/
  | keyOrEnd
  /-- The colon behind a key. -/
  | colon (members : List (Option String × Json)) (key : Option String)
  /-- A comma or the end of a container, behind a value. -/
  | separator (value : Json)

/-- The object with given members, last one first. -/
def ofMembers (members : List (Option String × Json)) : Json :=
  match members.reverse.mapM fun m => m.1.map (·, m.2) with
  | some ms => object ms
  | none => unusable

/-- Behind an array or object that stands inside open containers. -/
def close (stack : List OpenContainer) (j : Json) : Expected :=
  .separator (if (stack.drop (maxDepth - 1)).isEmpty then j else unusable)

/-- Reads a lexeme where a value may come. -/
def stepValue (stack : List OpenContainer) : Lexeme → Option (List OpenContainer × Expected)
  | .scalar j => some (stack, .separator j)
  | .string s => some (stack, .separator ((s.map string).getD unusable))
  | .openArray => some (.array [] :: stack, .valueOrEnd)
  | .openObject => some (stack, .keyOrEnd)
  | _ => none

/-- Reads a lexeme behind a value. -/
def stepSeparator (stack : List OpenContainer) (j : Json) (l : Lexeme) :
    Option (List OpenContainer × Expected) :=
  match stack, l with
  | .array items :: stack, .comma => some (.array (j :: items) :: stack, .value)
  | .array items :: stack, .closeArray => some (stack, close stack (array (j :: items).reverse))
  | .object ms k :: stack, .comma => some (stack, .key ((k, j) :: ms))
  | .object ms k :: stack, .closeObject => some (stack, close stack (ofMembers ((k, j) :: ms)))
  | _, _ => none

/-- Reads one lexeme inside the open containers, innermost one first. -/
def step (stack : List OpenContainer) (expected : Expected) (l : Lexeme) :
    Option (List OpenContainer × Expected) :=
  match expected, l with
  | .value, l => stepValue stack l
  | .valueOrEnd, .closeArray => some (stack.tail, close stack.tail (array []))
  | .valueOrEnd, l => stepValue stack l
  | .key ms, .string k => some (stack, .colon ms k)
  | .keyOrEnd, .string k => some (stack, .colon [] k)
  | .keyOrEnd, .closeObject => some (stack, close stack (object []))
  | .colon ms k, .colon => some (.object ms k :: stack, .value)
  | .separator j, l => stepSeparator stack j l
  | _, _ => none

/-- Reads all lexemes of a text. -/
def assemble : List OpenContainer → Expected → List Lexeme → Option Json
  | [], .separator j, [] => some j
  | _, _, [] => none
  | stack, expected, l :: ls =>
    match step stack expected l with
    | some (stack, expected) => assemble stack expected ls
    | none => none

/-- The value that a text is. -/
def ofText? (text : String) : Option Json := do assemble [] .value (← lexemes? text)

end CssSieve.Json
