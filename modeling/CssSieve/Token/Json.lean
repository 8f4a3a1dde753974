import CssSieve.Json.Basic
import CssSieve.Token.Basic

/-!
# Tokens as JSON

A token without payload is the name of its kind; any other is an object whose only key is that
name. A token without payload may also be read from such an object with `null`.
-/

namespace CssSieve

namespace HashFlag

def name : HashFlag → String
  | id => "Id"
  | unrestricted => "Unrestricted"

def ofJson? (j : Json) : Option HashFlag := do
  match ← j.tag? with
  | "Id" => some id
  | "Unrestricted" => some unrestricted
  | _ => none

end HashFlag

namespace NumericFlag

def name : NumericFlag → String
  | integer => "Integer"
  | number => "Number"

def ofJson? (j : Json) : Option NumericFlag := do
  match ← j.tag? with
  | "Integer" => some integer
  | "Number" => some number
  | _ => none

end NumericFlag

namespace Numeric

def members (n : Numeric) : List (String × Json) :=
  [("value", .float n.value), ("int_value", (n.intValue.map Json.int).getD .null),
    ("numeric_type", .string n.flag.name)]

/-- A missing integer counts as `null`. -/
def ofJson? (j : Json) : Option Numeric := do
  let value ← (← j.member? "value").float?
  let intValue ← match j.member? "int_value" with
    | none | some .null => some none
    | some i => i.int64?.map some
  let flag ← NumericFlag.ofJson? (← j.member? "numeric_type")
  some ⟨value, intValue, flag⟩

end Numeric

namespace Token

/-- What a token carries, as JSON. -/
def payload? : Token → Option Json
  | ident s | function s | atKeyword s | string s | url s => some (.string s)
  | hash s flag => some (.object [("value", .string s), ("hash_type", .string flag.name)])
  | delim c => some (.string c.toString)
  | number n | percentage n => some (.object n.members)
  | dimension n unit => some (.object (n.members ++ [("unit", .string unit)]))
  | _ => none

def toJson (t : Token) : Json :=
  match t.payload? with
  | some payload => .tag t.kind.name payload
  | none => .string t.kind.name

/-- A token of a kind that carries something. -/
def ofPayload? (kind : TokenKind) (j : Json) : Option Token :=
  match kind with
  | .ident => j.string?.map ident
  | .function => j.string?.map function
  | .atKeyword => j.string?.map atKeyword
  | .string => j.string?.map string
  | .url => j.string?.map url
  | .hash => do
    some (hash (← (← j.member? "value").string?) (← HashFlag.ofJson? (← j.member? "hash_type")))
  | .delim => j.char?.map delim
  | .number => (Numeric.ofJson? j).map number
  | .percentage => (Numeric.ofJson? j).map percentage
  | .dimension => do some (dimension (← Numeric.ofJson? j) (← (← j.member? "unit").string?))
  | _ => none

def ofJson? (j : Json) : Option Token := do
  let (name, payload) ← j.tagged?
  let kind ← TokenKind.ofName? name
  match kind.plain?, payload with
  | some t, none | some t, some .null => some t
  | some _, some _ => none
  | none, some payload => ofPayload? kind payload
  | none, none => none

end Token

end CssSieve
