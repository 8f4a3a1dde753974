import CssSieve.Grammar.AnyOrder
import CssSieve.Grammar.Repetition

/-!
# Value grammars

The productions of the CSS value definition syntax: keywords, typed tokens, functions and blocks,
and the combinators that compose them. `Grammar.search` gives each production its meaning, which is
built from the meanings of its parts alone.
-/

namespace CssSieve

inductive Grammar where
  /-- One of several words. -/
  | keyword (words : List String)
  /-- A token of a kind, with a test of its payload if there is one. -/
  | token (kind : TokenKind) (test : Option (Token → Bool))
  /-- The name of a custom property. -/
  | customProperty
  /-- One of several delimiters. -/
  | delim (chars : List Char)
  /-- White space, which must be there if it is required. -/
  | whitespace (required : Bool)
  /-- Nothing, where no white space follows. -/
  | noWhitespace
  | function (name : String) (arguments : Grammar)
  | block (opener : Char) (contents : Grammar)
  /-- `a | b`. -/
  | oneOf (parts : List Grammar)
  /-- `a b`, or with commas `a , b`. -/
  | inOrder (commas : Bool) (parts : List Grammar)
  /-- `a?`, `a*`, `a+`, `a{A,B}` and `a#`. -/
  | repeated (multiplier : Multiplier) (part : Grammar)
  /-- `a && b`, or when not all are required `a || b`. -/
  | anyOrder (allRequired : Bool) (parts : List Grammar)

namespace Grammar

instance : Inhabited Grammar := ⟨oneOf []⟩

/-! ## What single values are accepted -/

/-- Whether an identifier is one of the words. Words compare without ASCII case, identifiers that
begin with two dashes exactly. -/
def acceptsWord (words : List String) (ident : String) : Bool :=
  if ident.startsWith "--" then words.contains ident else Text.caselessMem ident words

def acceptsKeyword (words : List String) : Value → Bool
  | .token (.ident s) => acceptsWord words s
  | _ => false

def acceptsToken (kind : TokenKind) (test : Option (Token → Bool)) : Value → Bool
  | .token t => t.kind == kind && (test.map (· t)).getD true
  | _ => false

def acceptsCustomProperty : Value → Bool
  | .token t => t.isCustomPropertyName
  | _ => false

def acceptsDelim (chars : List Char) : Value → Bool
  | .token (.delim c) => chars.contains c
  | _ => false

/-- The arguments of a function with the name, in any ASCII case. -/
def argumentsOf? (name : String) : Value → Option (List Value)
  | .function n vs => if Text.caseless n name then some vs else none
  | _ => none

/-- The contents of a block with the opener. -/
def contentsOf? (opener : Char) : Value → Option (List Value)
  | .block c vs => if c == opener then some vs else none
  | _ => none

theorem token_of_acceptsKeyword {words : List String} (v : Value) (h : acceptsKeyword words v) :
    v.token?.isSome := by
  cases v <;> first | rfl | cases h

theorem token_of_acceptsToken {kind : TokenKind} {test : Option (Token → Bool)} (v : Value)
    (h : acceptsToken kind test v) : v.token?.isSome := by
  cases v <;> first | rfl | cases h

theorem token_of_acceptsCustomProperty (v : Value) (h : acceptsCustomProperty v) :
    v.token?.isSome := by
  cases v <;> first | rfl | cases h

theorem token_of_acceptsDelim {chars : List Char} (v : Value) (h : acceptsDelim chars v) :
    v.token?.isSome := by
  cases v <;> first | rfl | cases h

theorem eq_function_of_argumentsOf? {name : String} {v : Value} {vs : List Value}
    (inside : vs ∈ argumentsOf? name v) : ∃ n, v = .function n vs := by
  cases v with
  | function n as =>
      obtain ⟨-, rfl⟩ : Text.caseless n name ∧ as = vs := by simpa [argumentsOf?] using inside
      exact ⟨n, rfl⟩
  | token | block => cases inside

theorem eq_block_of_contentsOf? {opener : Char} {v : Value} {vs : List Value}
    (inside : vs ∈ contentsOf? opener v) : v = .block opener vs := by
  cases v with
  | block c bs =>
      obtain ⟨rfl, rfl⟩ : c = opener ∧ bs = vs := by simpa [contentsOf?] using inside
      rfl
  | token | function => cases inside

/-! ## Meaning -/

mutual

/-- Where a match of the grammar can end. -/
def search : Grammar → List Value → Nat → Outcome
  | keyword words, values, start => Search.one (acceptsKeyword words) values start
  | token kind test, values, start => Search.one (acceptsToken kind test) values start
  | customProperty, values, start => Search.one acceptsCustomProperty values start
  | delim chars, values, start => Search.one (acceptsDelim chars) values start
  | whitespace required, values, start => Search.whitespace required values start
  | noWhitespace, values, start => Search.noWhitespace values start
  | function name g, values, start =>
      Search.group (argumentsOf? name) (.arguments name) g.search values start
  | block opener g, values, start =>
      Search.group (contentsOf? opener) (.contents opener) g.search values start
  | oneOf gs, values, start => Search.oneOf (searches gs) values start
  | inOrder commas gs, values, start => Search.inOrder commas (searches gs) values start
  | repeated m g, values, start => Search.repeated m g.search values start
  | anyOrder all gs, values, start => Search.anyOrder all (searches gs) values start

/-- The searches of several grammars. -/
def searches : List Grammar → List Search
  | [] => []
  | g :: gs => g.search :: searches gs

end

/-- The ends of the matches from a position. -/
def ends (g : Grammar) (values : List Value) (start : Nat) : List Nat :=
  (g.search values start).ends

/-- Whether the grammar matches the whole list, up to white space at its end. -/
def matchesAll (g : Grammar) (values : List Value) : Bool := Search.matchesAll g.search values

/-- The faults met in trying to match the list. -/
def faults (g : Grammar) (values : List Value) : Furthest Fault := (g.search values 0).faults

/-! ## Inspection -/

/-- How a production for single tokens shows itself: its kind, and whether it has a test. -/
def inspected? : Grammar → Option String
  | token kind test =>
    some (s!"TokenMatcher \x7b kind: {kind.name}, predicate: "
      ++ (if test.isSome then "true" else "false") ++ " \x7d")
  | _ => none

/-! ## Shorthands -/

def word (w : String) : Grammar := keyword [w]

/-- Any token of a kind. -/
def anyToken (kind : TokenKind) : Grammar := token kind none

/-- A token of a kind that passes a test. -/
def tokenThat (kind : TokenKind) (test : Token → Bool) : Grammar := token kind (some test)

/-- `a?` -/
def optional (g : Grammar) : Grammar := repeated ⟨0, some 1, false⟩ g

/-- `a*` -/
def many (g : Grammar) : Grammar := repeated ⟨0, none, false⟩ g

/-- `a+` -/
def atLeastOne (g : Grammar) : Grammar := repeated ⟨1, none, false⟩ g

/-- `a{A,B}` -/
def between (g : Grammar) (least greatest : Nat) : Grammar :=
  repeated ⟨least, some greatest, false⟩ g

/-- `a#{A,B}` -/
def commaBetween (g : Grammar) (least greatest : Nat) : Grammar :=
  repeated ⟨least, some greatest, true⟩ g

/-- `a#{A,}` -/
def commaList (g : Grammar) (least : Nat) : Grammar := repeated ⟨least, none, true⟩ g

/-- `a b` -/
def seq (gs : List Grammar) : Grammar := inOrder false gs

/-- `a , b` -/
def commaSeq (gs : List Grammar) : Grammar := inOrder true gs

/-- `a && b` -/
def allOf (gs : List Grammar) : Grammar := anyOrder true gs

/-- `a || b` -/
def someOf (gs : List Grammar) : Grammar := anyOrder false gs

/-- A group in any order, refused when it has too many parts. -/
def group? (allRequired : Bool) (gs : List Grammar) : Option Grammar :=
  if gs.length ≤ maxGroupParts then some (anyOrder allRequired gs) else none

/-- What is said of a group with too many parts. -/
def groupRefusal : String := s!"unordered group limited to {maxGroupParts} children"

/-- `a` with `b` right behind it. -/
def touching (a b : Grammar) : Grammar := seq [a, noWhitespace, b]

end Grammar

end CssSieve
