/-!
# Diagnostics

Every rule or declaration that is dropped leaves an error behind, and an error may be followed by
notes that say more. A diagnostic names its place by indices into the lists of the sheet.
-/

namespace CssSieve

inductive Severity where
  /-- More about the error before it. -/
  | note
  /-- Something was dropped. -/
  | error
deriving DecidableEq, Repr

def Severity.name : Severity → String
  | note => "note"
  | error => "error"

/-- What went wrong. -/
inductive Code where
  /-- The property is not in the registry that is in force. -/
  | unknownProperty
  /-- The value does not match the grammar of its property. -/
  | invalidValue
  /-- Nobody handles an at-rule of this name. -/
  | unknownAtRule
  /-- The prelude of a style rule is no list of selectors. -/
  | invalidSelector
  /-- The prelude or the block of an at-rule is wrong for it. -/
  | invalidPrelude
  /-- A function or block was recognised, but its contents were not. -/
  | malformedFunctionArguments
  /-- Something was repeated less often than required. -/
  | missingRequiredRepetition
deriving DecidableEq, Repr

namespace Code

def all : List Code :=
  [unknownProperty, invalidValue, unknownAtRule, invalidSelector, invalidPrelude,
    malformedFunctionArguments, missingRequiredRepetition]

def name : Code → String
  | unknownProperty => "unknown-property"
  | invalidValue => "invalid-value"
  | unknownAtRule => "unknown-at-rule"
  | invalidSelector => "invalid-selector"
  | invalidPrelude => "invalid-prelude"
  | malformedFunctionArguments => "malformed-function-arguments"
  | missingRequiredRepetition => "missing-required-repetition"

end Code

/-- A place in a sheet. -/
inductive Location where
  /-- A rule of the list at hand. -/
  | rule (index : Nat)
  /-- A declaration of the block at hand. -/
  | declaration (index : Nat) (property : String)
  /-- A component value in the value of a property. -/
  | value (property : String) (offset : Nat)
  /-- A place inside a rule of the list at hand. -/
  | nested (rule : Nat) (location : Location)
deriving DecidableEq, Repr

def Location.text : Location → String
  | .rule index => s!"rule {index}"
  | .declaration index property => s!"declaration {index} ({property})"
  | .value property offset => s!"{property} value at {offset}"
  | .nested index place => s!"rule {index} > " ++ place.text

structure Diagnostic where
  severity : Severity
  code : Code
  location : Location
  message : String
deriving DecidableEq, Repr

namespace Diagnostic

def error (code : Code) (location : Location) (message : String) : Diagnostic :=
  ⟨.error, code, location, message⟩

def note (code : Code) (location : Location) (message : String) : Diagnostic :=
  ⟨.note, code, location, message⟩

/-- Severity and code, as they head a diagnostic. -/
def label (d : Diagnostic) : String := s!"{d.severity.name}[{d.code.name}]"

def text (d : Diagnostic) : String := d.label ++ ": " ++ d.message

/-- The diagnostic with its place taken as inside a rule. -/
def nestedIn (d : Diagnostic) (rule : Nat) : Diagnostic :=
  { d with location := .nested rule d.location }

/-- All diagnostics with their places taken as inside a rule. -/
def allNestedIn (rule : Nat) (ds : List Diagnostic) : List Diagnostic := ds.map (·.nestedIn rule)

/-- How many of the diagnostics have the code. -/
def count (code : Code) (ds : List Diagnostic) : Nat := ds.countP (·.code == code)

/-- How many things were dropped. -/
def errorCount (ds : List Diagnostic) : Nat := ds.countP (·.severity == .error)

end Diagnostic

end CssSieve
