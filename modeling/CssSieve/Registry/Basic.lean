import CssSieve.Grammar.Primitives
import CssSieve.Registry.NameTable

/-!
# Property registries

A registry says which properties are known and what grammar the value of each has to match. It is
put together step by step; a step that asks for a property that is missing, or adds one that is
there already, fails and leaves the registry as it was.
-/

namespace CssSieve

/-- A mistake in putting a registry together. Names are given in lower case. -/
inductive RegistryError where
  /-- A property was added that is known already. -/
  | duplicate (name : String)
  /-- A property was required that is not known. -/
  | missing (name : String)
deriving DecidableEq, Repr

def RegistryError.message : RegistryError → String
  | duplicate name => s!"duplicate registration of property '{name}'"
  | missing name => s!"property '{name}' is required but not registered"

/-- The properties known, each with its grammar. -/
abbrev Registry := NameTable Grammar

namespace Registry

/-- Sets the grammar of a property, and gives the one that it had before. -/
def set (r : Registry) (name : String) (g : Grammar) : Registry × Option Grammar :=
  (r.insert name g, r.get? name)

/-- Takes a property out, and gives the grammar that it had. -/
def remove (r : Registry) (name : String) : Registry × Option Grammar :=
  (r.erase name, r.get? name)

/-- Reads a batch that is to be added into a table of what is pending. All of that is put in at the
end of the batch; a name that is known, or pending already, ends it before. -/
def addPending (r : Registry) (pending : NameTable Grammar) :
    List (String × Grammar) → EStateM.Result RegistryError Registry Unit
  | [] => .ok () (r.insertAll pending.entries)
  | (name, g) :: batch =>
    if r.contains name || pending.contains name then .error (.duplicate (Text.lower name)) r
    else addPending r (pending.insert name g) batch

/-- Adds properties that are all new, or none of them. The registry is handed back either way. -/
def add (r : Registry) (batch : List (String × Grammar)) :
    EStateM.Result RegistryError Registry Unit :=
  addPending r ∅ batch

/-- The grammar of a property that has to be known. -/
def require (r : Registry) (name : String) : Except RegistryError Grammar :=
  match r.get? name with
  | some g => .ok g
  | none => .error (.missing (Text.lower name))

/-- Whether the grammar of a property matches a whole value; nothing if it is not known. -/
def accepts? (r : Registry) (name : String) (value : List Value) : Option Bool :=
  (r.get? name).map (·.matchesAll value)

/-- The names of the properties whose grammars match a whole value. -/
def accepting (r : Registry) (value : List Value) : List String :=
  (r.entries.filter (·.2.matchesAll value)).map (·.1)

end Registry

/-- A step in putting a registry together, from the registry so far and the basic data types. One
that fails hands back what it has made of the registry until then. -/
abbrev Extension := Registry → Primitives → EStateM.Result RegistryError Registry Unit

/-- A warning about the configuration: the part of the program that it concerns, and its text. -/
structure Warning where
  component : String
  message : String
deriving DecidableEq, Repr

/-- What is said of an extension that is left out. -/
def Extension.skipped (label : String) (e : RegistryError) : Warning :=
  ⟨"Registry", s!"skipping extension '{label}': " ++ e.message⟩

namespace Registry

/-- The registry behind a step that did not fail. -/
def succeeded : EStateM.Result RegistryError Registry Unit → Except RegistryError Registry
  | .ok () r => .ok r
  | .error e _ => .error e

instance : Coe (EStateM.Result RegistryError Registry Unit) (Except RegistryError Registry) :=
  ⟨succeeded⟩

/-- Applies an extension. Where it fails, the registry is given up. -/
def extend (r : Registry) (p : Primitives) (extension : Extension) :
    Except RegistryError Registry :=
  extension r p

/-- Applies an extension to a copy of the registry. One that fails is left out with a warning, and
the copy with it. -/
def extendOrWarn (r : Registry) (p : Primitives) (label : String) (extension : Extension) :
    Registry × Option Warning :=
  match extension r p with
  | .ok () copy => (copy, none)
  | .error e _ => (r, some (Extension.skipped label e))

/-- Applies extensions in order, each labelled, leaving out those that fail. -/
def extendAll (r : Registry) (p : Primitives) :
    List (String × Extension) → Registry × List Warning
  | [] => (r, [])
  | (label, extension) :: rest =>
    let (r, warning) := r.extendOrWarn p label extension
    let (r, warnings) := extendAll r p rest
    (r, warning.toList ++ warnings)

end Registry

end CssSieve
