import CssSieve.Token.Text
import CssSieve.Value.Basic

/-!
# CSS text of component values
-/

namespace CssSieve.Value

mutual

/-- The value as CSS text; a group is closed by the counterpart of what opened it. -/
def css : Value → String
  | token t => t.css
  | function name vs => name ++ "(" ++ cssAll vs ++ ")"
  | block c vs => c.toString ++ cssAll vs ++ (closerOf c).toString

/-- The texts of a list, one after the other. -/
def cssAll : List Value → String
  | [] => ""
  | v :: vs => v.css ++ cssAll vs

end

end CssSieve.Value
