import CssSieve.Json.Basic

/-!
# Lexemes of JSON text

The text is cut into lexemes by an automaton that looks at each character once. A number or a word
ends at the first character that cannot belong to it.
-/

namespace CssSieve.Json

inductive Lexeme where
  | openArray
  | closeArray
  | openObject
  | closeObject
  | comma
  | colon
  /-- `null`, `true`, `false` or a number. -/
  | scalar (value : Json)
  /-- A string, which is no text if it holds half a surrogate pair. -/
  | string (text : Option String)

/-! ## Numbers -/

/-- The digits at the front of a list, and the rest. -/
def spanDigits (cs : List Char) : List Char × List Char := cs.span Char.isDigit

/-- The natural number that digits stand for. -/
def natOfDigits (ds : List Char) : Nat := ds.foldl (fun n d => 10 * n + (d.toNat - 48)) 0

/-- The binary64 number nearest to `mantissa · 10^exponent`, which is infinite when that is too
large. Exponents far out of range are decided by the count of digits alone. -/
def floatOfDecimal (mantissa : Nat) (exponent : Int) : Float :=
  let point := exponent + (Nat.toDigits 10 mantissa).length
  if mantissa = 0 ∨ point < -330 then 0
  else if 310 < point then 1 / 0
  else if exponent < 0 then Float.ofScientific mantissa true (-exponent).toNat
  else Float.ofScientific (mantissa * Nat.pow 10 exponent.toNat) false 0

/-- The part of a number behind the point, which has at least one digit. -/
def fraction? : List Char → Option (List Char × List Char)
  | '.' :: cs =>
    match spanDigits cs with
    | ([], _) => none
    | (ds, rest) => some (ds, rest)
  | cs => some ([], cs)

/-- The power of ten at the end of a number, which has at least one digit. -/
def power? : List Char → Option Int
  | [] => some 0
  | e :: cs =>
    if e = 'e' ∨ e = 'E' then
      let (negative, cs) := match cs with
        | '-' :: cs => (true, cs)
        | '+' :: cs => (false, cs)
        | cs => (false, cs)
      match spanDigits cs with
      | ([], _) | (_, _ :: _) => none
      | (ds, []) => some (if negative then -(natOfDigits ds : Int) else natOfDigits ds)
    else none

/-- Whether digits can stand before the point: at least one, and no zero before others. -/
def isWholePart : List Char → Bool
  | [] => false
  | ['0'] => true
  | d :: _ => d != '0'

/-- A number from its characters. An integer that fits into sixty-four bits stays one; a negative
zero does not, for its sign would be lost. What is too large for binary64 is no number. -/
def number? (text : List Char) : Option Json := do
  let (negative, cs) := match text with
    | '-' :: cs => (true, cs)
    | cs => (false, cs)
  let (whole, rest) := spanDigits cs
  guard (isWholePart whole)
  let (part, rest) ← fraction? rest
  let power ← power? rest
  let n := natOfDigits whole
  let isInteger := rest.isEmpty && part.isEmpty
  if isInteger && !negative && n < UInt64.size then some (int n)
  else if isInteger && negative && n ≤ UInt64.size / 2 && n != 0 then some (int (-n))
  else
    let x := floatOfDecimal (natOfDigits (whole ++ part)) (power - part.length)
    some (if x.isFinite then float (if negative then -x else x) else unusable)

/-! ## Strings -/

/-- The leading half of a surrogate pair. -/
def isLeading (n : Nat) : Bool := 0xd800 ≤ n && n < 0xdc00

/-- The trailing half of a surrogate pair. -/
def isTrailing (n : Nat) : Bool := 0xdc00 ≤ n && n < 0xe000

/-- The character that a surrogate pair stands for. -/
def ofPair (leading trailing : Nat) : Char :=
  Char.ofNat (0x10000 + (leading - 0xd800) * 0x400 + (trailing - 0xdc00))

/-- Puts the characters of a string before those behind them. They are given last one first, some of
them as the two halves of a surrogate pair; a half without the other is no character. -/
def joinPairs? : List Nat → List Char → Option (List Char)
  | [], behind => some behind
  | n :: ns, behind =>
    if isTrailing n then
      match ns with
      | m :: ns => if isLeading m then joinPairs? ns (ofPair m n :: behind) else none
      | [] => none
    else if isLeading n then none
    else joinPairs? ns (Char.ofNat n :: behind)

theorem isLeading_toNat (c : Char) : isLeading c.toNat = false := by
  have := c.valid
  simp only [isLeading, Char.toNat, Bool.and_eq_false_iff, decide_eq_false_iff_not]
  simp only [UInt32.isValidChar, Nat.isValidChar] at this
  omega

theorem isTrailing_toNat (c : Char) : isTrailing c.toNat = false := by
  have := c.valid
  simp only [isTrailing, Char.toNat, Bool.and_eq_false_iff, decide_eq_false_iff_not]
  simp only [UInt32.isValidChar, Nat.isValidChar] at this
  omega

/-- Characters stand for themselves. -/
theorem joinPairs?_toNat (cs behind : List Char) :
    joinPairs? (cs.map Char.toNat) behind = some (cs.reverse ++ behind) := by
  induction cs generalizing behind with
  | nil => rfl
  | cons c cs ih =>
      rw [List.map_cons, joinPairs?.eq_def]
      simp [isLeading_toNat, isTrailing_toNat, ih, Char.ofNat_toNat]

/-- The text of a string whose units are given last one first. -/
def textOfUnits? (units : List Nat) : Option String := (joinPairs? units []).map String.ofList

/-! ## The automaton -/

/-- Where the automaton stands. What has been read so far is kept last one first: the characters of
a number or word, and the units of a string, which are code points and halves of surrogate pairs. -/
inductive Scanner where
  | between
  | inNumber (text : List Char)
  | inWord (text : List Char)
  | inString (units : List Nat)
  /-- Behind a backslash. -/
  | inEscape (units : List Nat)
  /-- In the four hexadecimal digits of an escape. -/
  | inHex (units : List Nat) (digits : Nat) (value : Nat)

namespace Scanner

def isNumberChar (c : Char) : Bool :=
  c.isDigit || c == '-' || c == '+' || c == '.' || c == 'e' || c == 'E'

def word? : List Char → Option Json
  | ['n', 'u', 'l', 'l'] => some null
  | ['t', 'r', 'u', 'e'] => some (bool true)
  | ['f', 'a', 'l', 's', 'e'] => some (bool false)
  | _ => none

/-- Reads a character between lexemes. -/
def stepBetween (c : Char) : Option (Scanner × Option Lexeme) :=
  match c with
  | ' ' | '\n' | '\t' | '\r' => some (between, none)
  | '[' => some (between, some .openArray)
  | ']' => some (between, some .closeArray)
  | '\x7b' => some (between, some .openObject)
  | '\x7d' => some (between, some .closeObject)
  | ',' => some (between, some .comma)
  | ':' => some (between, some .colon)
  | '"' => some (inString [], none)
  | c =>
    if c.isDigit || c == '-' then some (inNumber [c], none)
    else if c.isLower then some (inWord [c], none)
    else none

/-- The character that an escape of one letter stands for. -/
def escape? : Char → Option Char
  | '"' => some '"'
  | '\\' => some '\\'
  | '/' => some '/'
  | 'b' => some '\x08'
  | 'f' => some '\x0c'
  | 'n' => some '\n'
  | 'r' => some '\r'
  | 't' => some '\t'
  | _ => none

def hexDigit? (c : Char) : Option Nat :=
  if c.isDigit then some (c.toNat - 48)
  else if 'a' ≤ c ∧ c ≤ 'f' then some (c.toNat - 87)
  else if 'A' ≤ c ∧ c ≤ 'F' then some (c.toNat - 55)
  else none

/-- Puts a finished lexeme before what the next step yields. -/
def emit (value : Option Json) (next : Option (Scanner × Option Lexeme)) :
    Option (Scanner × List Lexeme) := do
  let (s, l) ← next
  some (s, .scalar (← value) :: l.toList)

/-- Reads one character. -/
def step : Scanner → Char → Option (Scanner × List Lexeme)
  | between, c => (stepBetween c).map fun (s, l) => (s, l.toList)
  | inNumber text, c =>
    if isNumberChar c then some (inNumber (c :: text), [])
    else emit (number? text.reverse) (stepBetween c)
  | inWord text, c =>
    if c.isLower then some (inWord (c :: text), []) else emit (word? text.reverse) (stepBetween c)
  | inString units, c =>
    if c = '"' then some (between, [.string (textOfUnits? units)])
    else if c = '\\' then some (inEscape units, [])
    else if c.toNat < 32 then none
    else some (inString (c.toNat :: units), [])
  | inEscape units, c =>
    if c = 'u' then some (inHex units 0 0, [])
    else (escape? c).map fun d => (inString (d.toNat :: units), [])
  | inHex units digits value, c => do
    let value := 16 * value + (← hexDigit? c)
    if digits = 3 then some (inString (value :: units), [])
    else some (inHex units (digits + 1) value, [])

/-- What is left to emit at the end of the text. -/
def finish : Scanner → Option (List Lexeme)
  | between => some []
  | inNumber text => (number? text.reverse).map ([.scalar ·])
  | inWord text => (word? text.reverse).map ([.scalar ·])
  | _ => none

/-- Reads a whole text; the lexemes found so far are kept last one first. -/
def run : Scanner → List Lexeme → List Char → Option (List Lexeme)
  | s, found, [] => s.finish.map fun ls => found.reverse ++ ls
  | s, found, c :: cs =>
    match s.step c with
    | some (s, ls) => run s (ls.reverse ++ found) cs
    | none => none

end Scanner

/-- The lexemes of a text. -/
def lexemes? (text : String) : Option (List Lexeme) := Scanner.between.run [] text.toList

end CssSieve.Json
