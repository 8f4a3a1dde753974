import CssSieve.Policy.Checked
import CssSieve.Registry.Basic
import CssSieve.Sheet.Important
import CssSieve.Value.Text

/-!
# Which declarations are allowed

Custom properties are kept whatever they hold. Any other declaration is kept when its property is
known and its value matches the grammar of the property or the words that every property accepts;
the values themselves are never changed, except that an annotation of importance still found at the
end of a value is taken into the flag.
-/

namespace CssSieve

/-- The properties known in a block, and what is accepted as a value of any of them. -/
structure DeclarationPolicy where
  registry : Registry
  wide : Grammar

namespace DeclarationPolicy

/-- The registry with the words that every property accepts. -/
def ofRegistry (registry : Registry) (p : Primitives) : DeclarationPolicy :=
  ⟨registry, p.wideKeywords⟩

/-- The declaration as it is matched: an annotation at the end of the value is taken into the flag,
unless the flag is set already. A second annotation is then part of the value. -/
def annotated (d : Declaration) : Declaration :=
  if d.important then d
  else
    let (value, important) := stripImportant d.value
    { d with value, important }

def unknownProperty (index : Nat) (name : String) : Diagnostic :=
  .error .unknownProperty (.declaration index name) s!"unknown property '{name}'"

def invalidValue (index : Nat) (d : Declaration) : Diagnostic :=
  .error .invalidValue (.declaration index d.name)
    (s!"invalid value for '{d.name}': " ++ Value.cssAll d.value)

/-- Notes on the faults that a grammar met in a value. -/
def faultNotes (name : String) (faults : Furthest Fault) : List Diagnostic :=
  faults.notes.map fun fault => .note fault.code (.value name faults.offset) fault.message

/-- Checks the declaration with the given index in its block. -/
def check (policy : DeclarationPolicy) (index : Nat) (d : Declaration) :
    Checked (Option Declaration) :=
  if d.isCustomProperty then .keep d
  else
    match policy.registry.get? d.name with
    | none => .drop (unknownProperty index d.name) []
    | some grammar =>
      let d := annotated d
      if grammar.matchesAll d.value || policy.wide.matchesAll d.value then .keep d
      else .drop (invalidValue index d) (faultNotes d.name (grammar.faults d.value))

/-- Checks the declarations of a block from the given index on, each on its own. -/
def checkFrom (policy : DeclarationPolicy) : Nat → List Declaration → Checked (List Declaration)
  | _, [] => ⟨[], []⟩
  | index, d :: ds => (policy.check index d).followedBy (policy.checkFrom (index + 1) ds)

/-- Checks all declarations of a block. -/
def checkAll (policy : DeclarationPolicy) (ds : List Declaration) : Checked (List Declaration) :=
  policy.checkFrom 0 ds

end DeclarationPolicy

end CssSieve
