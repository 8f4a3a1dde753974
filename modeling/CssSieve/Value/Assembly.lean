import CssSieve.Value.Basic

/-!
# Assembly of tokens into component values

`Value.ofTokens` folds a token stream into component values in one pass, with the groups that are
still open on a stack. A closing token closes the innermost open group if it is the token that
group waits for; otherwise it is a value like any other. The first end-of-input token, or the end
of the stream, closes every open group.
-/

namespace CssSieve

/-- What opened a group of values. -/
inductive GroupHead where
  | function (name : String)
  | block (opener : Char)
deriving DecidableEq

namespace GroupHead

/-- The group that a token opens. -/
def ofToken? : Token → Option GroupHead
  | .function name => some (.function name)
  | .leftBracket => some (.block '[')
  | .leftParen => some (.block '(')
  | .leftBrace => some (.block '\x7b')
  | _ => none

/-- The token that closes a group. -/
def closer : GroupHead → Token
  | function _ => .rightParen
  | block '[' => .rightBracket
  | block '(' => .rightParen
  | block _ => .rightBrace

/-- The group as a value. -/
def wrap : GroupHead → List Value → Value
  | function name, vs => .function name vs
  | block c, vs => .block c vs

end GroupHead

/-- A group that has not been closed yet, with the values that stand before it in the enclosing
list, last one first. -/
structure OpenGroup where
  head : GroupHead
  before : List Value

namespace Value

/-- Closes every open group; `inner` holds the values of the innermost one, last one first. -/
def closeAll : List OpenGroup → List Value → List Value
  | [], inner => inner.reverse
  | g :: gs, inner => closeAll gs (g.head.wrap inner.reverse :: g.before)

/-- Reads tokens inside the groups of a stack, innermost group first. -/
def assemble : List OpenGroup → List Value → List Token → List Value
  | gs, inner, [] => closeAll gs inner
  | gs, inner, t :: ts =>
    if t.isEof then closeAll gs inner
    else
      match GroupHead.ofToken? t with
      | some head => assemble (⟨head, inner⟩ :: gs) [] ts
      | none =>
        match gs with
        | [] => assemble [] (.token t :: inner) ts
        | g :: gs =>
          if t = g.head.closer then assemble gs (g.head.wrap inner.reverse :: g.before) ts
          else assemble (g :: gs) (.token t :: inner) ts

/-- The component values of a token stream. -/
def ofTokens (ts : List Token) : List Value := assemble [] [] ts

end Value

end CssSieve
