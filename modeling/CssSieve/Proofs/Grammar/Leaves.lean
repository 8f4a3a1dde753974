import CssSieve.Grammar.Primitives

/-!
# What grammars are made of

The leaves of a grammar are its productions for single values and for white space; everything else
puts grammars together. `Grammar.Leaves` says of a grammar that all its leaves have a property. The
grammars of this library are made of few kinds of leaves, whatever the basic data types are:
`Usual` lists what a property has to hold of, and `Primitives.MadeOf` asks it of data types.
-/

namespace CssSieve

namespace Grammar

variable {ok : Grammar → Prop}

mutual

/-- All leaves have the property. -/
def Leaves (ok : Grammar → Prop) : Grammar → Prop
  | keyword words => ok (keyword words)
  | token kind test => ok (token kind test)
  | customProperty => ok customProperty
  | delim chars => ok (delim chars)
  | whitespace required => ok (whitespace required)
  | noWhitespace => ok noWhitespace
  | function _ g | block _ g | repeated _ g => Leaves ok g
  | oneOf gs | inOrder _ gs | anyOrder _ gs => allLeaves ok gs

def allLeaves (ok : Grammar → Prop) : List Grammar → Prop
  | [] => True
  | g :: gs => Leaves ok g ∧ allLeaves ok gs

end

theorem allLeaves_iff {gs : List Grammar} : allLeaves ok gs ↔ ∀ g ∈ gs, g.Leaves ok := by
  induction gs with
  | nil => simp [allLeaves]
  | cons g gs ih => rw [allLeaves, ih, List.forall_mem_cons]

/-! ## Productions and shorthands -/

section

variable {g : Grammar} {gs : List Grammar} {name : String} {opener : Char} {least greatest : Nat}

@[simp] theorem leaves_function : (function name g).Leaves ok ↔ g.Leaves ok := Iff.rfl

@[simp] theorem leaves_block : (block opener g).Leaves ok ↔ g.Leaves ok := Iff.rfl

@[simp] theorem leaves_oneOf : (oneOf gs).Leaves ok ↔ ∀ g ∈ gs, g.Leaves ok := allLeaves_iff

@[simp] theorem leaves_seq : (seq gs).Leaves ok ↔ ∀ g ∈ gs, g.Leaves ok := allLeaves_iff

@[simp] theorem leaves_commaSeq : (commaSeq gs).Leaves ok ↔ ∀ g ∈ gs, g.Leaves ok := allLeaves_iff

@[simp] theorem leaves_allOf : (allOf gs).Leaves ok ↔ ∀ g ∈ gs, g.Leaves ok := allLeaves_iff

@[simp] theorem leaves_someOf : (someOf gs).Leaves ok ↔ ∀ g ∈ gs, g.Leaves ok := allLeaves_iff

@[simp] theorem leaves_optional : (optional g).Leaves ok ↔ g.Leaves ok := Iff.rfl

@[simp] theorem leaves_many : (many g).Leaves ok ↔ g.Leaves ok := Iff.rfl

@[simp] theorem leaves_atLeastOne : (atLeastOne g).Leaves ok ↔ g.Leaves ok := Iff.rfl

@[simp] theorem leaves_between : (between g least greatest).Leaves ok ↔ g.Leaves ok := Iff.rfl

@[simp] theorem leaves_commaBetween : (commaBetween g least greatest).Leaves ok ↔ g.Leaves ok :=
  Iff.rfl

@[simp] theorem leaves_commaList : (commaList g least).Leaves ok ↔ g.Leaves ok := Iff.rfl

end

/-! ## The usual leaves -/

/-- The property holds of the leaves that data types and properties are made of. -/
class Usual (ok : Grammar → Prop) : Prop where
  keyword (words : List String) : ok (keyword words)
  delim (chars : List Char) : ok (delim chars)
  customProperty : ok customProperty
  anyToken (kind : TokenKind) : ok (anyToken kind)
  integer : ok (tokenThat .number Token.isInteger)
  zero : ok (tokenThat .number isZero)
  dimension (units : List String) : ok (dimension units)
  customIdent : ok (tokenThat .ident isCustomIdent)
  hexColor (lengths : List Nat) : ok (tokenThat .hash (isHexColor lengths))
  valueIn (kind : TokenKind) (low high : Float) : ok (tokenThat kind (Token.valueIn low high))

section

variable [usual : Usual ok]

@[simp] theorem leaves_keyword (words : List String) : (keyword words).Leaves ok :=
  usual.keyword words

@[simp] theorem leaves_word (w : String) : (word w).Leaves ok := usual.keyword [w]

@[simp] theorem leaves_delim (chars : List Char) : (delim chars).Leaves ok := usual.delim chars

@[simp] theorem leaves_customProperty : customProperty.Leaves ok := usual.customProperty

@[simp] theorem leaves_anyToken (kind : TokenKind) : (anyToken kind).Leaves ok :=
  usual.anyToken kind

@[simp] theorem leaves_integer : (tokenThat .number Token.isInteger).Leaves ok := usual.integer

@[simp] theorem leaves_zero : (tokenThat .number isZero).Leaves ok := usual.zero

@[simp] theorem leaves_dimension (units : List String) : (dimension units).Leaves ok :=
  usual.dimension units

@[simp] theorem leaves_customIdent : (tokenThat .ident isCustomIdent).Leaves ok :=
  usual.customIdent

@[simp] theorem leaves_hexColor (lengths : List Nat) :
    (tokenThat .hash (isHexColor lengths)).Leaves ok :=
  usual.hexColor lengths

@[simp] theorem leaves_valueIn (kind : TokenKind) (low high : Float) :
    (tokenThat kind (Token.valueIn low high)).Leaves ok :=
  usual.valueIn kind low high

/-! ## Compound types -/

theorem leaves_boxPosition {lengthPercentage : Grammar} (lp : lengthPercentage.Leaves ok) :
    (boxPosition lengthPercentage).Leaves ok := by
  simp [boxPosition, lp]

theorem leaves_imageOf {url color lengthPercentage angle zero position : Grammar}
    (hu : url.Leaves ok) (hc : color.Leaves ok) (lp : lengthPercentage.Leaves ok)
    (ha : angle.Leaves ok) (hz : zero.Leaves ok) (hp : position.Leaves ok) :
    (imageOf url color lengthPercentage angle zero position).Leaves ok := by
  simp [imageOf, hu, hc, lp, ha, hz, hp]

theorem leaves_easingOf {integer number comma : Grammar} (hi : integer.Leaves ok)
    (hn : number.Leaves ok) (hc : comma.Leaves ok) :
    (easingOf integer number comma).Leaves ok := by
  simp [easingOf, hi, hn, hc]

end

theorem leaves_plainColorFunctions {integer number percentage : Grammar}
    (hi : integer.Leaves ok) (hn : number.Leaves ok) (hp : percentage.Leaves ok) :
    ∀ g ∈ plainColorFunctions integer number percentage, g.Leaves ok := by
  simp [plainColorFunctions, hi, hn, hp]

theorem leaves_variableColorFunctions {reference integer number percentage : Grammar}
    (hr : reference.Leaves ok) (hi : integer.Leaves ok) (hn : number.Leaves ok)
    (hp : percentage.Leaves ok) :
    ∀ g ∈ variableColorFunctions reference integer number percentage, g.Leaves ok := by
  simp [variableColorFunctions, hr, hi, hn, hp]

end Grammar

open Grammar

namespace Primitives

/-- All data types are made of leaves with the property. -/
class MadeOf (ok : Grammar → Prop) (p : Primitives) : Prop where
  integer : p.integer.Leaves ok
  number : p.number.Leaves ok
  percentage : p.percentage.Leaves ok
  zero : p.zero.Leaves ok
  length : p.length.Leaves ok
  lengthPercentage : p.lengthPercentage.Leaves ok
  angle : p.angle.Leaves ok
  anglePercentage : p.anglePercentage.Leaves ok
  time : p.time.Leaves ok
  frequency : p.frequency.Leaves ok
  resolution : p.resolution.Leaves ok
  comma : p.comma.Leaves ok
  string : p.string.Leaves ok
  customIdent : p.customIdent.Leaves ok
  url : p.url.Leaves ok
  color : p.color.Leaves ok
  position : p.position.Leaves ok
  image : p.image.Leaves ok
  easing : p.easing.Leaves ok
  wideKeywords : p.wideKeywords.Leaves ok
  reference : p.reference.Leaves ok

attribute [simp] MadeOf.integer MadeOf.number MadeOf.percentage MadeOf.zero MadeOf.length
  MadeOf.lengthPercentage MadeOf.angle MadeOf.anglePercentage MadeOf.time MadeOf.frequency
  MadeOf.resolution MadeOf.comma MadeOf.string MadeOf.customIdent MadeOf.url MadeOf.color
  MadeOf.position MadeOf.image MadeOf.easing MadeOf.wideKeywords MadeOf.reference

variable {ok : Grammar → Prop} [Usual ok]

/-- Only colors are written differently in the data types of this library. -/
theorem madeOf_of_colors {hex : Grammar} {functions : List Grammar} (hh : hex.Leaves ok)
    (hf : ∀ g ∈ functions, g.Leaves ok) :
    MadeOf ok { colorHex := hex, colorFunctions := functions } := by
  have url : (oneOf [anyToken .url, function "url" (anyToken .string)]).Leaves ok := by simp
  have color : (oneOf (keyword colorNames :: hex :: functions)).Leaves ok := by simpa [hh] using hf
  have lengthPercentage : (oneOf [oneOf [dimension lengthUnits, tokenThat .number isZero],
      anyToken .percentage]).Leaves ok := by
    simp
  have position := leaves_boxPosition lengthPercentage
  have image := leaves_imageOf url color lengthPercentage (leaves_dimension angleUnits) leaves_zero
    position
  have easing : (easingOf (tokenThat .number Token.isInteger) (anyToken .number)
      (anyToken .comma)).Leaves ok :=
    leaves_easingOf leaves_integer (leaves_anyToken .number) (leaves_anyToken .comma)
  constructor <;> first | assumption | simp

instance : MadeOf ok .standard := by
  apply madeOf_of_colors (leaves_hexColor [3, 6])
  apply leaves_plainColorFunctions <;> simp

instance : MadeOf ok .extended := by
  apply madeOf_of_colors (leaves_hexColor [3, 4, 6, 8])
  apply leaves_variableColorFunctions <;> simp [standard]

end Primitives

end CssSieve
