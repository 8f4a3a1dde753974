import CssSieve.Sheet.Basic
import CssSieve.Value.Text

/-!
# CSS text of style sheets

Declarations stand in braces with a semicolon between them, rules of a block with a space before
each, and every rule of a sheet on a line of its own.
-/

namespace CssSieve

/-- `name: value`, with the space after the colon unless the value brings its own. -/
def Declaration.css (d : Declaration) : String :=
  d.name ++ ":"
    ++ (if (d.value.head?.map Value.isWhitespace).getD false then "" else " ")
    ++ Value.cssAll d.value
    ++ (if d.important then " !important" else "")

/-- Declarations in braces. -/
def Declaration.cssBlock (ds : List Declaration) : String :=
  "\x7b" ++ ";".intercalate (ds.map (" " ++ ·.css)) ++ " \x7d"

def StyleRule.css (r : StyleRule) : String :=
  Value.cssAll r.prelude ++ " " ++ Declaration.cssBlock r.declarations

mutual

def AtRule.css : AtRule → String
  | ⟨name, prelude, block⟩ =>
      "@" ++ name ++ (if prelude.isEmpty then "" else " " ++ Value.cssAll prelude) ++ block.css

/-- A block with the space before it, or the semicolon that stands for its absence. -/
def AtBlock.css : AtBlock → String
  | .absent => ";"
  | .raw vs => " \x7b" ++ Value.cssAll vs ++ "\x7d"
  | .declarations ds => " " ++ Declaration.cssBlock ds
  | .rules rs => " \x7b" ++ Rule.cssAll rs ++ " \x7d"

def Rule.css : Rule → String
  | .style r => r.css
  | .at r => r.css

/-- Rules with a space before each. -/
def Rule.cssAll : List Rule → String
  | [] => ""
  | r :: rs => " " ++ r.css ++ Rule.cssAll rs

end

/-- The sheet, every rule on a line of its own. -/
def Sheet.css (s : Sheet) : String := String.join (s.rules.map (·.css ++ "\n"))

end CssSieve
