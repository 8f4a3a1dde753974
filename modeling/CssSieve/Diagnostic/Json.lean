import CssSieve.Diagnostic.Basic
import CssSieve.Json.Basic

/-!
# Diagnostics as JSON

A place is an object whose member `kind` says which of the four it is: by name or, inside another
place, by number.
-/

namespace CssSieve

def Severity.ofJson? (j : Json) : Option Severity := do
  match ← j.tag? with
  | "note" => some .note
  | "error" => some .error
  | _ => none

def Code.ofJson? (j : Json) : Option Code := do
  let name ← j.tag?
  Code.all.find? (·.name == name)

namespace Location

def toJson : Location → Json
  | .rule i => .object [("kind", .string "rule"), ("index", .int i)]
  | .declaration i property =>
      .object [("kind", .string "declaration"), ("index", .int i), ("property", .string property)]
  | .value property offset =>
      .object [("kind", .string "value"), ("property", .string property), ("offset", .int offset)]
  | .nested i place =>
      .object [("kind", .string "nested"), ("rule", .int i), ("location", place.toJson)]

/-- The kinds of places, each at its number. -/
def kinds : List String := ["rule", "declaration", "value", "nested"]

/-- The kind that an object says it is; only an inner place may say it by number. -/
def kind? (inner : Bool) (j : Json) : Option String := do
  match ← j.member? "kind" with
  | .string k => some k
  | .int (.ofNat n) => if inner then kinds[n]? else none
  | _ => none

/-- A place of a kind that holds no other. -/
def ofFlatMembers? (kind : String) (j : Json) : Option Location := do
  match kind with
  | "rule" => some (.rule (← (← j.member? "index").nat64?))
  | "declaration" =>
    some (.declaration (← (← j.member? "index").nat64?) (← (← j.member? "property").string?))
  | "value" =>
    some (.value (← (← j.member? "property").string?) (← (← j.member? "offset").nat64?))
  | _ => none

mutual

/-- A place, which may be one inside another. -/
def ofInnerJson? (inner : Bool) : Json → Option Location
  | .object members => do
      let kind ← kind? inner (.object members)
      if kind = "nested" then
        let i ← (← (Json.object members).member? "rule").nat64?
        some (.nested i (← locationMember? members))
      else ofFlatMembers? kind (.object members)
  | _ => none

/-- The place under the key `location`. -/
def locationMember? : List (String × Json) → Option Location
  | [] => none
  | (key, j) :: ms => if key = "location" then ofInnerJson? true j else locationMember? ms

end

def ofJson? (j : Json) : Option Location := ofInnerJson? false j

end Location

namespace Diagnostic

def toJson (d : Diagnostic) : Json :=
  .object
    [("severity", .string d.severity.name), ("code", .string d.code.name),
      ("location", d.location.toJson), ("message", .string d.message)]

def ofJson? (j : Json) : Option Diagnostic := do
  let severity ← Severity.ofJson? (← j.member? "severity")
  let code ← Code.ofJson? (← j.member? "code")
  let location ← Location.ofJson? (← j.member? "location")
  let message ← (← j.member? "message").string?
  some ⟨severity, code, location, message⟩

end Diagnostic

end CssSieve
