import CssSieve.Token.Json
import CssSieve.Value.Basic

/-!
# Component values as JSON
-/

namespace CssSieve.Value

mutual

def toJson : Value → Json
  | token t => .tag "Token" t.toJson
  | function name vs =>
      .tag "Function" (.object [("name", .string name), ("value", .array (toJsonAll vs))])
  | block c vs =>
      .tag "Block" (.object [("token", .string c.toString), ("value", .array (toJsonAll vs))])

def toJsonAll : List Value → List Json
  | [] => []
  | v :: vs => v.toJson :: toJsonAll vs

end

/-! Reading goes down into the JSON value, so it is recursive on that. -/

mutual

def ofJson? : Json → Option Value
  | .object [(tag, .object members)] =>
      match tag with
      | "Token" => (Token.ofJson? (.object members)).map token
      | "Function" => do
          let name ← ((Json.object members).member? "name").bind Json.string?
          some (function name (← valueMember? members))
      | "Block" => do
          let opener ← ((Json.object members).member? "token").bind Json.char?
          some (block opener (← valueMember? members))
      | _ => none
  | .object [(tag, payload)] => if tag = "Token" then (Token.ofJson? payload).map token else none
  | _ => none

/-- The values under the key `value`. -/
def valueMember? : List (String × Json) → Option (List Value)
  | [] => none
  | (key, j) :: ms =>
      if key = "value" then
        match j with
        | .array js => ofJsonAll? js
        | _ => none
      else valueMember? ms

def ofJsonAll? : List Json → Option (List Value)
  | [] => some []
  | j :: js => do some ((← ofJson? j) :: (← ofJsonAll? js))

end

end CssSieve.Value
