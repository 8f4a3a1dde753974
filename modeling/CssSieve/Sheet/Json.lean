import CssSieve.Sheet.Basic
import CssSieve.Value.Json

/-!
# Style sheets as JSON

A missing block and a missing `important` may be left out; `null` stands for a missing block.
-/

namespace CssSieve

namespace Declaration

def toJson (d : Declaration) : Json :=
  .object
    [("name", .string d.name), ("value", .array (Value.toJsonAll d.value)),
      ("important", .bool d.important)]

def ofJson? (j : Json) : Option Declaration := do
  let name ← (← j.member? "name").string?
  let value ← (← j.member? "value").list? Value.ofJson?
  let important ← match j.member? "important" with
    | none => some false
    | some b => b.bool?
  some ⟨name, value, important⟩

end Declaration

namespace StyleRule

def toJson (r : StyleRule) : Json :=
  .object
    [("prelude", .array (Value.toJsonAll r.prelude)),
      ("declarations", .array (r.declarations.map Declaration.toJson))]

def ofJson? (j : Json) : Option StyleRule := do
  let prelude ← (← j.member? "prelude").list? Value.ofJson?
  let declarations ← (← j.member? "declarations").list? Declaration.ofJson?
  some ⟨prelude, declarations⟩

end StyleRule

mutual

def AtRule.toJson : AtRule → Json
  | ⟨name, prelude, block⟩ =>
      .object
        [("name", .string name), ("prelude", .array (Value.toJsonAll prelude)),
          ("block", block.toJson)]

def AtBlock.toJson : AtBlock → Json
  | .absent => .null
  | .raw vs => .tag "Raw" (.array (Value.toJsonAll vs))
  | .declarations ds => .tag "Declarations" (.array (ds.map Declaration.toJson))
  | .rules rs => .tag "Rules" (.array (Rule.toJsonAll rs))

def Rule.toJson : Rule → Json
  | .style r => .tag "Style" r.toJson
  | .at r => .tag "At" r.toJson

def Rule.toJsonAll : List Rule → List Json
  | [] => []
  | r :: rs => r.toJson :: Rule.toJsonAll rs

end

/-- The at-rule whose other members are given. -/
def AtRule.withBlock? (members : List (String × Json)) (block : AtBlock) : Option AtRule := do
  let j := Json.object members
  let name ← (← j.member? "name").string?
  let prelude ← (← j.member? "prelude").list? Value.ofJson?
  some ⟨name, prelude, block⟩

/-! Reading goes down into the JSON value, so it is recursive on that. -/

mutual

def AtRule.ofMembers? (all : List (String × Json)) : List (String × Json) → Option AtRule
  | [] => AtRule.withBlock? all .absent
  | (key, j) :: ms =>
      if key = "block" then do AtRule.withBlock? all (← AtBlock.ofJson? j)
      else AtRule.ofMembers? all ms

def AtBlock.ofJson? : Json → Option AtBlock
  | .null => some .absent
  | .object [(tag, .array js)] =>
      match tag with
      | "Raw" => (js.mapM Value.ofJson?).map .raw
      | "Declarations" => (js.mapM Declaration.ofJson?).map .declarations
      | "Rules" => (Rule.ofJsonAll? js).map .rules
      | _ => none
  | _ => none

def Rule.ofJson? : Json → Option Rule
  | .object [(tag, .object members)] =>
      match tag with
      | "Style" => (StyleRule.ofJson? (.object members)).map .style
      | "At" => (AtRule.ofMembers? members members).map .at
      | _ => none
  | _ => none

def Rule.ofJsonAll? : List Json → Option (List Rule)
  | [] => some []
  | j :: js => do some ((← Rule.ofJson? j) :: (← Rule.ofJsonAll? js))

end

def AtRule.ofJson? : Json → Option AtRule
  | .object members => AtRule.ofMembers? members members
  | _ => none

namespace Sheet

def toJson (s : Sheet) : Json := .object [("rules", .array (Rule.toJsonAll s.rules))]

def ofJson? (j : Json) : Option Sheet := do
  some ⟨← (← j.member? "rules").list? Rule.ofJson?⟩

end Sheet

end CssSieve
