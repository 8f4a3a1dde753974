import CssSieve.Diagnostic.Json
import CssSieve.Policy.Basic
import CssSieve.Sheet.Json

/-!
# Sanitized sheets as JSON
-/

namespace CssSieve.Sanitized

def toJson (s : Sanitized) : Json :=
  .object
    [("stylesheet", s.sheet.toJson), ("diagnostics", .array (s.diagnostics.map Diagnostic.toJson))]

def ofJson? (j : Json) : Option Sanitized := do
  let sheet ← Sheet.ofJson? (← j.member? "stylesheet")
  let diagnostics ← (← j.member? "diagnostics").list? Diagnostic.ofJson?
  some ⟨sheet, diagnostics⟩

end CssSieve.Sanitized
