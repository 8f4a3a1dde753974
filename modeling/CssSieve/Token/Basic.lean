/-!
# Tokens

The tokens of CSS text, as a tokenizer hands them over. A token is never changed by this library:
grammars look at its kind and its payload, and the printer writes it back.
-/

namespace CssSieve

/-- Whether the text of a hash token would be an identifier. -/
inductive HashFlag where
  | id
  | unrestricted
deriving DecidableEq, Repr

/-- Whether a numeric token was written without a fraction and an exponent. -/
inductive NumericFlag where
  | integer
  | number
deriving DecidableEq, Repr

/-- What the three numeric tokens share: the value, the integer it was written as, if it was one,
and the flag. The three are given independently. -/
structure Numeric where
  value : Float
  intValue : Option Int
  flag : NumericFlag
deriving DecidableEq

inductive Token where
  | ident (name : String)
  | function (name : String)
  | atKeyword (name : String)
  | hash (value : String) (flag : HashFlag)
  | string (value : String)
  | badString
  | url (value : String)
  | badUrl
  | delim (char : Char)
  | number (numeric : Numeric)
  | percentage (numeric : Numeric)
  | dimension (numeric : Numeric) (unit : String)
  | whitespace
  | cdo
  | cdc
  | colon
  | semicolon
  | comma
  | leftBracket
  | rightBracket
  | leftParen
  | rightParen
  | leftBrace
  | rightBrace
  | eof
deriving DecidableEq

/-- A token without its payload. -/
inductive TokenKind where
  | ident
  | function
  | atKeyword
  | hash
  | string
  | badString
  | url
  | badUrl
  | delim
  | number
  | percentage
  | dimension
  | whitespace
  | cdo
  | cdc
  | colon
  | semicolon
  | comma
  | leftBracket
  | rightBracket
  | leftParen
  | rightParen
  | leftBrace
  | rightBrace
  | eof
deriving DecidableEq, Repr

namespace TokenKind

/-- Every kind, in the order of the declaration. -/
def all : List TokenKind :=
  [ident, function, atKeyword, hash, string, badString, url, badUrl, delim, number, percentage,
    dimension, whitespace, cdo, cdc, colon, semicolon, comma, leftBracket, rightBracket, leftParen,
    rightParen, leftBrace, rightBrace, eof]

/-- The name of a kind, which is also the tag of such tokens in JSON. -/
def name : TokenKind → String
  | ident => "Ident"
  | function => "Function"
  | atKeyword => "AtKeyword"
  | hash => "Hash"
  | string => "String"
  | badString => "BadString"
  | url => "Url"
  | badUrl => "BadUrl"
  | delim => "Delim"
  | number => "Number"
  | percentage => "Percentage"
  | dimension => "Dimension"
  | whitespace => "Whitespace"
  | cdo => "CDO"
  | cdc => "CDC"
  | colon => "Colon"
  | semicolon => "Semicolon"
  | comma => "Comma"
  | leftBracket => "LeftBracket"
  | rightBracket => "RightBracket"
  | leftParen => "LeftParen"
  | rightParen => "RightParen"
  | leftBrace => "LeftBrace"
  | rightBrace => "RightBrace"
  | eof => "EOF"

/-- The kind with the given name. -/
def ofName? (s : String) : Option TokenKind := all.find? (·.name == s)

/-- What opens or closes a group, separates values or ends the input: a kind with no payload. -/
def plain? : TokenKind → Option Token
  | badString => some .badString
  | badUrl => some .badUrl
  | whitespace => some .whitespace
  | cdo => some .cdo
  | cdc => some .cdc
  | colon => some .colon
  | semicolon => some .semicolon
  | comma => some .comma
  | leftBracket => some .leftBracket
  | rightBracket => some .rightBracket
  | leftParen => some .leftParen
  | rightParen => some .rightParen
  | leftBrace => some .leftBrace
  | rightBrace => some .rightBrace
  | eof => some .eof
  | _ => none

end TokenKind

namespace Numeric

/-- A number written as an integer. -/
def ofInt (i : Int) : Numeric := ⟨Float.ofInt i, some i, .integer⟩

/-- A number written with a fraction or an exponent. -/
def ofFloat (x : Float) : Numeric := ⟨x, none, .number⟩

/-- A number that carries the integer flag exactly when an integer is given. -/
def ofParts (x : Float) (i : Option Int) : Numeric :=
  ⟨x, i, if i.isSome then .integer else .number⟩

end Numeric

/-- Whether a name is that of a custom property: two dashes and at least one character more. -/
def isCustomPropertyName (name : String) : Bool :=
  match name.toList with
  | '-' :: '-' :: _ :: _ => true
  | _ => false

namespace Token

def kind : Token → TokenKind
  | ident _ => .ident
  | function _ => .function
  | atKeyword _ => .atKeyword
  | hash _ _ => .hash
  | string _ => .string
  | badString => .badString
  | url _ => .url
  | badUrl => .badUrl
  | delim _ => .delim
  | number _ => .number
  | percentage _ => .percentage
  | dimension _ _ => .dimension
  | whitespace => .whitespace
  | cdo => .cdo
  | cdc => .cdc
  | colon => .colon
  | semicolon => .semicolon
  | comma => .comma
  | leftBracket => .leftBracket
  | rightBracket => .rightBracket
  | leftParen => .leftParen
  | rightParen => .rightParen
  | leftBrace => .leftBrace
  | rightBrace => .rightBrace
  | eof => .eof

def isEof : Token → Bool
  | eof => true
  | _ => false

def isWhitespace : Token → Bool
  | whitespace => true
  | _ => false

/-- The numeric part of a number, percentage or dimension. -/
def numeric? : Token → Option Numeric
  | number n | percentage n | dimension n _ => some n
  | _ => none

/-- The value of a number, percentage or dimension. -/
def value? (t : Token) : Option Float := t.numeric?.map (·.value)

/-- Whether the token is numeric and carries the integer flag. -/
def isInteger (t : Token) : Bool :=
  match t.numeric? with
  | some n => n.flag == .integer
  | none => false

/-- The unit of a dimension. -/
def unit? : Token → Option String
  | dimension _ unit => some unit
  | _ => none

/-- The text that an identifier, function, at-keyword, hash, string or url token carries. -/
def text? : Token → Option String
  | ident s | function s | atKeyword s | string s | url s | hash s _ => some s
  | _ => none

/-- The flag of a hash token. -/
def hashFlag? : Token → Option HashFlag
  | hash _ flag => some flag
  | _ => none

/-- Whether the token is an identifier that names a custom property. -/
def isCustomPropertyName : Token → Bool
  | ident name => CssSieve.isCustomPropertyName name
  | _ => false

/-- The numeric value lies in a closed range. -/
def valueIn (low high : Float) (t : Token) : Bool :=
  match t.value? with
  | some x => low ≤ x && x ≤ high
  | none => false

end Token

end CssSieve
