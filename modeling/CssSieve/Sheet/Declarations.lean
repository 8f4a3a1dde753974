import CssSieve.Sheet.Important

/-!
# Declaration lists

The contents of a block are read as declarations by an automaton that looks at each value once.
A semicolon at the top level of the list always brings it back to `between`, whatever stood before:
that is how a broken declaration costs no more than itself. At-rules inside the list are passed
over, up to their block or their semicolon.
-/

namespace CssSieve

/-- Where a reader of declarations stands. -/
inductive DeclarationReader where
  /-- Before a declaration. -/
  | between
  /-- After a property name, before the colon. -/
  | afterName (name : String)
  /-- After the colon, before the first value that is not white space. -/
  | afterColon (name : String)
  /-- Inside the value, which is kept last one first. -/
  | inValue (name : String) (value : List Value)
  /-- Inside an at-rule, which is passed over. -/
  | inAtRule
  /-- Inside something broken, which is passed over. -/
  | skipping

namespace DeclarationReader

/-- The declaration with a value that was collected last one first. -/
def declare (name : String) (value : List Value) : Declaration :=
  let (value, important) := stripImportant value.reverse
  ⟨name, value, important⟩

/-- Reads one value between declarations. -/
def stepBetween : Value → DeclarationReader × Option Declaration
  | .token .whitespace | .token .semicolon => (between, none)
  | .token (.atKeyword _) => (inAtRule, none)
  | .token (.ident name) => (afterName name, none)
  | _ => (skipping, none)

/-- Reads one value where a colon is due. -/
def stepAfterName (name : String) : Value → DeclarationReader × Option Declaration
  | .token .whitespace => (afterName name, none)
  | .token .colon => (afterColon name, none)
  | .token .semicolon => (between, none)
  | _ => (skipping, none)

/-- Reads one value inside that of a declaration. -/
def stepInValue (name : String) (value : List Value) :
    Value → DeclarationReader × Option Declaration
  | .token .semicolon => (between, some (declare name value))
  | v => (inValue name (v :: value), none)

/-- Reads the first value behind a colon. -/
def stepAfterColon (name : String) : Value → DeclarationReader × Option Declaration
  | .token .whitespace => (afterColon name, none)
  | v => stepInValue name [] v

/-- Reads one value of an at-rule. -/
def stepInAtRule : Value → DeclarationReader × Option Declaration
  | .token .semicolon | .block '\x7b' _ => (between, none)
  | _ => (inAtRule, none)

/-- Reads one value of something broken. -/
def stepSkipping : Value → DeclarationReader × Option Declaration
  | .token .semicolon => (between, none)
  | _ => (skipping, none)

/-- Reads one value. -/
def step : DeclarationReader → Value → DeclarationReader × Option Declaration
  | between => stepBetween
  | afterName name => stepAfterName name
  | afterColon name => stepAfterColon name
  | inValue name value => stepInValue name value
  | inAtRule => stepInAtRule
  | skipping => stepSkipping

/-- The declaration that the end of the list completes. -/
def finish : DeclarationReader → Option Declaration
  | afterColon name => some (declare name [])
  | inValue name value => some (declare name value)
  | between | afterName _ | inAtRule | skipping => none

/-- Reads a whole list. -/
def run : DeclarationReader → List Value → List Declaration
  | r, [] => r.finish.toList
  | r, v :: vs => (r.step v).2.toList ++ run (r.step v).1 vs

end DeclarationReader

/-- The declarations in the contents of a block. -/
def Declaration.listOfValues (vs : List Value) : List Declaration :=
  DeclarationReader.between.run vs

end CssSieve
