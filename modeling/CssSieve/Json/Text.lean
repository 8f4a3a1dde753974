import CssSieve.Decimal.Layout
import CssSieve.Json.Basic

/-!
# JSON text

`compact` writes a value without spaces; `pretty` puts each item on a line of its own, two spaces
further in than what contains it. Strings keep every character as it is except quotes, backslashes
and control characters. What has no value is written as `null`.
-/

namespace CssSieve.Json

/-- The two lower hexadecimal digits of a number. -/
def hexPair (n : Nat) : List Char := [Nat.digitChar (n / 16 % 16), Nat.digitChar (n % 16)]

/-- One character inside a string. -/
def escapeChar (c : Char) : List Char :=
  match c with
  | '"' => ['\\', '"']
  | '\\' => ['\\', '\\']
  | '\n' => ['\\', 'n']
  | '\r' => ['\\', 'r']
  | '\t' => ['\\', 't']
  | c =>
    if c.toNat = 8 then ['\\', 'b']
    else if c.toNat = 12 then ['\\', 'f']
    else if c.toNat < 32 then '\\' :: 'u' :: '0' :: '0' :: hexPair c.toNat
    else [c]

def quoted (s : String) : String :=
  String.ofList ('"' :: (s.toList.flatMap escapeChar ++ ['"']))

/-- A float; what is not finite has no number in JSON. -/
def floatText (x : Float) : String :=
  if Decimal.exponentField x.toBits = 2047 then "null" else Decimal.json.write x

mutual

def compact : Json → String
  | null | unusable => "null"
  | bool b => if b then "true" else "false"
  | int i => toString i
  | float x => floatText x
  | string s => quoted s
  | array js => "[" ++ ",".intercalate (compactItems js) ++ "]"
  | object ms => "\x7b" ++ ",".intercalate (compactMembers ms) ++ "\x7d"

def compactItems : List Json → List String
  | [] => []
  | j :: js => j.compact :: compactItems js

def compactMembers : List (String × Json) → List String
  | [] => []
  | (k, j) :: ms => (quoted k ++ ":" ++ j.compact) :: compactMembers ms

end

/-- Lines between brackets, two spaces further in than the brackets. -/
def bracketed (opening closing : String) (indent : String) : List String → String
  | [] => opening ++ closing
  | lines =>
    opening ++ "\n" ++ ",\n".intercalate (lines.map (indent ++ "  " ++ ·)) ++ "\n" ++ indent
      ++ closing

mutual

/-- The value, with the space before lines that go on from it. -/
def prettyFrom (indent : String) : Json → String
  | null | unusable => "null"
  | bool b => if b then "true" else "false"
  | int i => toString i
  | float x => floatText x
  | string s => quoted s
  | array js => bracketed "[" "]" indent (prettyItems (indent ++ "  ") js)
  | object ms => bracketed "\x7b" "\x7d" indent (prettyMembers (indent ++ "  ") ms)

def prettyItems (indent : String) : List Json → List String
  | [] => []
  | j :: js => prettyFrom indent j :: prettyItems indent js

def prettyMembers (indent : String) : List (String × Json) → List String
  | [] => []
  | (k, j) :: ms => (quoted k ++ ": " ++ prettyFrom indent j) :: prettyMembers indent ms

end

def pretty (j : Json) : String := prettyFrom "" j

end CssSieve.Json
