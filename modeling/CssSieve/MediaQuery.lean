import CssSieve.Grammar.Primitives

/-!
# Media queries

The prelude of a media rule: a list of queries, each a condition or a media type that a condition
without `or` may follow. Names and values of features are checked for their shape only. Conditions
in parentheses nest to a fixed depth.
-/

namespace CssSieve.MediaQuery

open Grammar

/-- How deeply conditions nest in parentheses. -/
def maxNesting : Nat := 4

/-- The words that are no media type. -/
def reservedWords : List String := ["only", "not", "and", "or", "layer"]

def featureName : Grammar := anyToken .ident

def featureValue (p : Primitives) : Grammar :=
  oneOf
    [seq [p.number, delim ['/'], p.number], p.number, anyToken .dimension, anyToken .ident]

/-- `<`, `>`, `=`, or one of the first two with `=` right behind it. -/
def comparison : Grammar :=
  oneOf [seq [delim ['<', '>'], optional (seq [noWhitespace, delim ['=']])], delim ['=']]

/-- A feature in parentheses: its name, with a value, or within bounds. -/
def feature (p : Primitives) : Grammar :=
  let value := featureValue p
  let plain := seq [featureName, anyToken .colon, value]
  let range :=
    oneOf
      [seq [featureName, comparison, value], seq [value, comparison, featureName],
        seq [value, comparison, featureName, comparison, value]]
  block '(' (oneOf [plain, range, featureName])

/-- A condition of terms in parentheses: one with `not`, or several joined by `and`, or by `or`
where that is allowed. -/
def conditionOf (term : Grammar) (allowOr : Bool) : Grammar :=
  let chain (w : String) := atLeastOne (seq [word w, term])
  oneOf
    [seq [word "not", term],
      seq [term, optional (oneOf (chain "and" :: if allowOr then [chain "or"] else []))]]

/-- A feature, or in parentheses a condition that nests to the depth given. -/
def inParens (p : Primitives) : Nat → Grammar
  | 0 => feature p
  | depth + 1 => oneOf [feature p, block '(' (conditionOf (inParens p depth) true)]

/-- A condition that nests to the depth given. -/
def condition (p : Primitives) (depth : Nat) (allowOr : Bool) : Grammar :=
  conditionOf (inParens p depth) allowOr

/-- Whether an identifier can be a media type. -/
def isMediaType (t : Token) : Bool :=
  match t.text? with
  | some w => !Text.caselessMem w reservedWords
  | none => false

def query (p : Primitives) : Grammar :=
  oneOf
    [condition p maxNesting true,
      seq
        [optional (keyword ["not", "only"]), tokenThat .ident isMediaType,
          optional (seq [word "and", condition p maxNesting false])]]

/-- The prelude of a media rule, which may be empty. -/
def list (p : Primitives) : Grammar := optional (commaList (query p) 1)

end CssSieve.MediaQuery
