import CssSieve.Proofs.Value.Flattening
import CssSieve.Sheet.Text

/-!
# The tokens that a sheet is written with

The printer of a sheet gives text; here is the same sheet before it becomes text, as the component
values and the tokens that the printer writes one after the other. The text of those tokens is the
text of the sheet, but for the line feed behind each rule, which stands here as white space.
-/

namespace CssSieve

/-! ## Declarations -/

namespace Declaration

/-- What marks a declaration as important, with the space before it. -/
def mark (d : Declaration) : List Value :=
  if d.important then
    [.token .whitespace, .token (.delim '!'), .token (.ident "important")]
  else []

/-- What stands behind the colon: the value with its annotation, and a space in front unless the
value brings its own. -/
def body (d : Declaration) : List Value :=
  (if (d.value.head?.map Value.isWhitespace).getD false then [] else [.token .whitespace])
    ++ d.value ++ d.mark

def values (d : Declaration) : List Value :=
  .token (.ident d.name) :: .token .colon :: d.body

/-- What stands between the braces around declarations. -/
def blockValues (ds : List Declaration) : List Value :=
  [.token .semicolon].intercalate (ds.map (.token .whitespace :: ·.values))
    ++ [.token .whitespace]

end Declaration

/-! ## Rules -/

def StyleRule.values (r : StyleRule) : List Value :=
  r.prelude ++ [.token .whitespace, .block '\x7b' (Declaration.blockValues r.declarations)]

/-- Contents in braces with the space before them, or the semicolon that stands for their
absence. -/
def AtBlock.enclose : Option (List Value) → List Value
  | none => [.token .semicolon]
  | some vs => [.token .whitespace, .block '\x7b' vs]

mutual

/-- What stands between the braces of a block, if there is a block. -/
def AtBlock.contents? : AtBlock → Option (List Value)
  | .absent => none
  | .raw vs => some vs
  | .declarations ds => some (Declaration.blockValues ds)
  | .rules rs => some (Rule.valuesAll rs ++ [.token .whitespace])

def AtRule.values : AtRule → List Value
  | ⟨name, prelude, block⟩ =>
      .token (.atKeyword name)
        :: ((if prelude.isEmpty then [] else .token .whitespace :: prelude)
          ++ AtBlock.enclose block.contents?)

def Rule.values : Rule → List Value
  | .style r => r.values
  | .at r => r.values

/-- The values of rules with a space before each. -/
def Rule.valuesAll : List Rule → List Value
  | [] => []
  | r :: rs => .token .whitespace :: (r.values ++ Rule.valuesAll rs)

end

namespace Sheet

/-- The values of a sheet, with white space behind every rule. -/
def values (s : Sheet) : List Value := s.rules.flatMap (·.values ++ [.token .whitespace])

def tokens (s : Sheet) : List Token := Value.tokensAll s.values

end Sheet

/-! ## The text of what is written -/

namespace Value

theorem cssAll_append (us vs : List Value) : cssAll (us ++ vs) = cssAll us ++ cssAll vs := by
  induction us with
  | nil => simp [cssAll]
  | cons u us ih => simp [cssAll, ih, String.append_assoc]

theorem cssAll_intercalate_semicolon (parts : List (List Value)) :
    cssAll ([.token .semicolon].intercalate parts) = ";".intercalate (parts.map cssAll) := by
  induction parts with
  | nil => rfl
  | cons part parts ih =>
      cases parts with
      | nil => simp [List.intercalate]
      | cons next parts =>
          rw [List.intercalate_cons_cons, cssAll_append, cssAll_append, ih]
          simp [cssAll, css, Token.css]

end Value

theorem Declaration.cssAll_mark (d : Declaration) :
    Value.cssAll d.mark = if d.important then " !important" else "" := by
  unfold mark
  split <;> rfl

theorem Declaration.cssAll_values (d : Declaration) : Value.cssAll d.values = d.css := by
  have space : Value.cssAll (if (d.value.head?.map Value.isWhitespace).getD false then []
      else [.token .whitespace]) =
      if (d.value.head?.map Value.isWhitespace).getD false then "" else " " := by
    split <;> rfl
  rw [values, body, css, Value.cssAll, Value.cssAll, Value.cssAll_append, Value.cssAll_append,
    cssAll_mark, space]
  simp only [Value.css, Token.css, String.append_assoc]

theorem Declaration.cssAll_blockValues (ds : List Declaration) :
    (Value.block '\x7b' (blockValues ds)).css = cssBlock ds := by
  have each : ds.map (Value.cssAll ∘ (.token .whitespace :: ·.values)) = ds.map (" " ++ ·.css) :=
    List.map_congr_left fun d _ => by
      show " " ++ Value.cssAll d.values = _
      rw [cssAll_values]
  rw [Value.css, blockValues, Value.cssAll_append, Value.cssAll_intercalate_semicolon,
    List.map_map, each, cssBlock]
  simp only [String.append_assoc]
  rfl

theorem StyleRule.cssAll_values (r : StyleRule) : Value.cssAll r.values = r.css := by
  rw [values, Value.cssAll_append, Value.cssAll, Value.cssAll, Value.cssAll,
    Declaration.cssAll_blockValues, css]
  simp [Value.css, Token.css, String.append_assoc]

theorem AtBlock.cssAll_enclose_some (vs : List Value) :
    Value.cssAll (enclose (some vs)) = " " ++ (Value.block '\x7b' vs).css := by
  simp [enclose, Value.cssAll, Value.css, Token.css]

theorem Value.css_braces (vs : List Value) :
    " " ++ (Value.block '\x7b' vs).css = " \x7b" ++ cssAll vs ++ "\x7d" := by
  have opening : " " ++ Char.toString '\x7b' = " \x7b" := by decide
  have closing : (closerOf '\x7b').toString = "\x7d" := by decide
  rw [css, closing, ← opening]
  simp only [String.append_assoc]

mutual

theorem AtBlock.cssAll_enclose : ∀ block : AtBlock,
    Value.cssAll (AtBlock.enclose block.contents?) = block.css
  | .absent => rfl
  | .raw vs => by
      rw [AtBlock.contents?, AtBlock.cssAll_enclose_some, Value.css_braces, AtBlock.css]
  | .declarations ds => by
      rw [AtBlock.contents?, AtBlock.cssAll_enclose_some, Declaration.cssAll_blockValues,
        AtBlock.css]
  | .rules rs => by
      have inner := Rule.cssAll_valuesAll rs
      have closing : " " ++ "\x7d" = " \x7d" := by decide
      rw [AtBlock.contents?, AtBlock.cssAll_enclose_some, Value.css_braces, Value.cssAll_append,
        inner, AtBlock.css, ← closing]
      simp only [Value.cssAll, Value.css, Token.css, String.append_empty, String.append_assoc]

theorem AtRule.cssAll_values : ∀ r : AtRule, Value.cssAll r.values = r.css
  | ⟨name, prelude, block⟩ => by
      have behind := AtBlock.cssAll_enclose block
      have before : Value.cssAll (if prelude.isEmpty then [] else .token .whitespace :: prelude) =
          if prelude.isEmpty then "" else " " ++ Value.cssAll prelude := by
        split <;> rfl
      rw [AtRule.values, Value.cssAll, Value.cssAll_append, before, behind, AtRule.css]
      simp only [Value.css, Token.css, String.append_assoc]

theorem Rule.cssAll_values : ∀ r : Rule, Value.cssAll r.values = r.css
  | .style r => r.cssAll_values
  | .at r => AtRule.cssAll_values r

theorem Rule.cssAll_valuesAll : ∀ rs : List Rule,
    Value.cssAll (Rule.valuesAll rs) = Rule.cssAll rs
  | [] => rfl
  | r :: rs => by
      rw [Rule.valuesAll, Value.cssAll, Value.cssAll_append, Rule.cssAll_values r,
        Rule.cssAll_valuesAll rs, Rule.cssAll, String.append_assoc, Value.css, Token.css]

end

theorem Sheet.tokens_eq_flatMap (s : Sheet) :
    s.tokens = s.rules.flatMap fun r => Value.tokensAll r.values ++ [.whitespace] := by
  have each (r : Rule) : Value.tokensAll (r.values ++ [.token .whitespace]) =
      Value.tokensAll r.values ++ [.whitespace] := Value.tokensAll_append _ _
  rw [tokens, values]
  induction s.rules with
  | nil => rfl
  | cons r rs ih => rw [List.flatMap_cons, List.flatMap_cons, Value.tokensAll_append, ih, each]

/-- The text of a sheet is that of its rules' tokens, with a line feed behind every rule. -/
theorem Sheet.css_eq_join_tokens (s : Sheet) :
    s.css = String.join
      (s.rules.map fun r => String.join ((Value.tokensAll r.values).map Token.css) ++ "\n") := by
  have each (r : Rule) : String.join ((Value.tokensAll r.values).map Token.css) = r.css := by
    rw [Value.join_css_tokensAll, Rule.cssAll_values]
  simp only [each, css]

end CssSieve
