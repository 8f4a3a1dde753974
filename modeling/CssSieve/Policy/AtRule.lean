import CssSieve.MediaQuery
import CssSieve.Policy.StyleRule
import CssSieve.Sheet.Nesting

/-!
# Which at-rules are allowed

Whoever knows an at-rule says what its prelude has to match and what its block holds. A block that
has not been read is read as that. The rules inside a media rule are checked like those of the
whole sheet, which is not done here but where the sheet is checked.
-/

namespace CssSieve

/-- What is known of an at-rule. -/
inductive AtRulePolicy where
  /-- No prelude, and a block of descriptors. -/
  | fontFace (descriptors : DeclarationPolicy)
  /-- A list of media queries, and a block of rules. -/
  | media (queries : Grammar)
  /-- A name, and a block of style rules with keyframe selectors. -/
  | keyframes (name : Grammar) (frames : StyleRulePolicy)
  /-- Page selectors, and a block of declarations. -/
  | page (selectors : Grammar) (declarations : DeclarationPolicy)
  /-- Anything else, decided for the rule at an index of its list. -/
  | custom (check : Nat → AtRule → Checked (Option AtRule))

namespace AtRulePolicy

/-! ## The standard at-rules -/

def fontFaceOf (registry : Registry) (p : Primitives) : AtRulePolicy :=
  fontFace (.ofRegistry registry p)

def mediaOf (p : Primitives) : AtRulePolicy := media (MediaQuery.list p)

/-- The name of keyframes: a word of the author's choice or a string. -/
def keyframesName (p : Primitives) : Grammar := .oneOf [p.customIdent, p.string]

def keyframesOf (declarations : DeclarationPolicy) (p : Primitives) : AtRulePolicy :=
  keyframes (keyframesName p) ⟨Selector.keyframeList, declarations⟩

def pageOf (declarations : DeclarationPolicy) : AtRulePolicy :=
  page Selector.pageList declarations

/-! ## Checks -/

def invalid (index : Nat) (name why : String) : Diagnostic :=
  .error .invalidPrelude (.rule index) (s!"dropping @{name}: " ++ why)

/-- Why a prelude does not fit the at-rule, if it does not. -/
def preludeFault? (policy : AtRulePolicy) (prelude : List Value) : Option String :=
  match policy with
  | fontFace _ =>
    if prelude.all Value.isWhitespace then none else some "@font-face takes no prelude"
  | media queries => if queries.matchesAll prelude then none else some "invalid media query list"
  | keyframes name _ => if name.matchesAll prelude then none else some "invalid keyframes name"
  | page selectors _ => if selectors.matchesAll prelude then none else some "invalid page selector"
  | custom _ => none

/-- Checks the declarations of a block. -/
def checkDeclarations (policy : DeclarationPolicy) (index : Nat) (r : AtRule) :
    Checked (Option AtRule) :=
  match r.block.declarations? with
  | none => .drop (invalid index r.name "expected a declaration block") []
  | some ds =>
    (policy.checkAll ds).inside index fun kept => ⟨r.name, r.prelude, .declarations kept⟩

def notInKeyframes (index : Nat) (name : String) : Diagnostic :=
  .error .unknownAtRule (.rule index) s!"@{name} is not allowed inside @keyframes"

/-- Checks a rule inside keyframes, where at-rules are not allowed. -/
def checkFrame (frames : StyleRulePolicy) (index : Nat) : Rule → Checked (Option Rule)
  | .style r => (frames.check index r).as .style
  | .at r => .drop (notInKeyframes index r.name) []

/-- Checks the rules inside keyframes from an index on. -/
def checkFramesFrom (frames : StyleRulePolicy) : Nat → List Rule → Checked (List Rule)
  | _, [] => ⟨[], []⟩
  | index, r :: rs =>
    (checkFrame frames index r).followedBy (checkFramesFrom frames (index + 1) rs)

/-- Checks the block of keyframes. -/
def checkFrames (frames : StyleRulePolicy) (index : Nat) (r : AtRule) : Checked (Option AtRule) :=
  match r.block.rules? with
  | none => .drop (invalid index r.name "expected a block of keyframes") []
  | some rules =>
    (checkFramesFrom frames 0 rules).inside index fun kept => ⟨r.name, r.prelude, .rules kept⟩

end AtRulePolicy

end CssSieve
