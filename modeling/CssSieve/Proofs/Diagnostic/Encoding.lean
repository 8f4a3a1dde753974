import CssSieve.Diagnostic.Json
import CssSieve.Proofs.Value.Encoding

/-!
# Diagnostics read from JSON

A diagnostic is read back from JSON as it was written, with every severity and code, and with a
place inside any number of rules. Indices are read with sixty-four bits.
-/

namespace CssSieve

theorem Severity.ofJson?_name (s : Severity) : Severity.ofJson? (.string s.name) = some s := by
  cases s <;> rfl

theorem Code.ofJson?_name (c : Code) : Code.ofJson? (.string c.name) = some c := by
  cases c <;> rfl

theorem Json.nat64?_natCast {n : Nat} (h : n < UInt64.size) :
    (Json.int (n : Int)).nat64? = some n := by
  simp [Json.nat64?, h]

namespace Location

/-- Every index in the place has sixty-four bits. -/
def IsEncodable : Location → Prop
  | rule i | declaration i _ | value _ i => i < UInt64.size
  | nested i place => i < UInt64.size ∧ place.IsEncodable

/-- A place is read back wherever it stands: its kind is written by name. -/
theorem ofInnerJson?_toJson {place : Location} (h : place.IsEncodable) (inner : Bool) :
    ofInnerJson? inner place.toJson = some place := by
  induction place generalizing inner with
  | rule i | declaration i property | value property i =>
      simp [toJson, ofInnerJson?, kind?, ofFlatMembers?, Json.member?_cons, Json.string?,
        Json.nat64?_natCast h]
  | nested i place ih =>
      simp [toJson, ofInnerJson?, kind?, locationMember?, Json.member?_cons,
        Json.nat64?_natCast h.1, ih h.2]

end Location

namespace Diagnostic

def IsEncodable (d : Diagnostic) : Prop := d.location.IsEncodable

theorem ofJson?_toJson {d : Diagnostic} (h : d.IsEncodable) :
    Diagnostic.ofJson? d.toJson = some d := by
  have place : Location.ofJson? d.location.toJson = some d.location :=
    Location.ofInnerJson?_toJson h false
  simp [toJson, ofJson?, Json.member?_cons, Json.string?, Severity.ofJson?_name,
    Code.ofJson?_name, place]

end Diagnostic

end CssSieve
