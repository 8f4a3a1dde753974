import CssSieve.Sheet.Basic
import CssSieve.Text.Ascii

/-!
# The `!important` annotation

A value is marked as important when its last two values other than white space are the delimiter
`!` and the identifier `important`, in any ASCII case. `stripImportant` takes one such annotation
away, together with the white space around it.
-/

namespace CssSieve

/-- Whether the value is the identifier `important`. -/
def Value.isImportantWord : Value → Bool
  | .token (.ident w) => Text.caseless w "important"
  | _ => false

/-- Whether the value is the delimiter `!`. -/
def Value.isBang : Value → Bool
  | .token (.delim c) => c == '!'
  | _ => false

/-- For a value read backwards that starts with its annotation, what stands before it. -/
def beforeAnnotation? : List Value → Option (List Value)
  | [] => none
  | word :: rest =>
    if word.isImportantWord then
      match rest.dropWhile Value.isWhitespace with
      | [] => none
      | bang :: front => if bang.isBang then some front else none
    else none

/-- The value without its annotation and without white space at its end, and whether there was an
annotation. -/
def stripImportant (value : List Value) : List Value × Bool :=
  let backwards := value.reverse.dropWhile Value.isWhitespace
  match beforeAnnotation? backwards with
  | some front => ((front.dropWhile Value.isWhitespace).reverse, true)
  | none => (backwards.reverse, false)

end CssSieve
