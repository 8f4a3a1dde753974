import CssSieve.Decimal.Layout
import CssSieve.Token.Basic

/-!
# CSS text of tokens

Names are written as they are. A string is written in double quotes, with a backslash before a
quote or a backslash, and a line feed as the escape `\a` with the space that ends it.
-/

namespace CssSieve

/-- One character of a quoted string. -/
def quoteChar : Char → List Char
  | '"' => ['\\', '"']
  | '\\' => ['\\', '\\']
  | '\n' => ['\\', 'a', ' ']
  | c => [c]

/-- A string in double quotes. -/
def quote (s : String) : String :=
  String.ofList ('"' :: (s.toList.flatMap quoteChar ++ ['"']))

namespace Numeric

/-- The integer if there is one, else the value with its shortest digits. -/
def css (n : Numeric) : String :=
  match n.intValue with
  | some i => toString i
  | none => Decimal.css.write n.value

end Numeric

namespace Token

/-- The token as CSS text. Broken strings, broken urls and the end of the input leave nothing. -/
def css : Token → String
  | ident s => s
  | function s => s ++ "("
  | atKeyword s => "@" ++ s
  | hash s _ => "#" ++ s
  | string s => quote s
  | badString | badUrl | eof => ""
  | url s => "url(" ++ s ++ ")"
  | delim c => c.toString
  | number n => n.css
  | percentage n => n.css ++ "%"
  | dimension n unit => n.css ++ unit
  | whitespace => " "
  | cdo => "<!--"
  | cdc => "-->"
  | colon => ":"
  | semicolon => ";"
  | comma => ","
  | leftBracket => "["
  | rightBracket => "]"
  | leftParen => "("
  | rightParen => ")"
  | leftBrace => "\x7b"
  | rightBrace => "\x7d"

end Token

end CssSieve
