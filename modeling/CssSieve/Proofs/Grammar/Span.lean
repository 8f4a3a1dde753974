import CssSieve.Grammar.Basic

/-!
# What grammars match

A grammar stands for a relation between two positions in a list of component values: it matches
what lies between them. `Grammar.Matches` says which relation that is, production by production and
without any search: alternatives are unions, sequences are compositions, a repetition is a sequence
of equal parts, and a group in any order is a sequence of some of its parts.
-/

namespace CssSieve

/-- What lies between two positions of a list. -/
abbrev Span := List Value → Nat → Nat → Prop

/-- All the white space that stands from a position on, which may be none. -/
def Gap : Span := fun values start e =>
  start ≤ e ∧ (∀ i, start ≤ i → i < e → ∃ v ∈ values[i]?, v.isWhitespace) ∧
    ∀ v ∈ values[e]?, ¬v.isWhitespace

namespace Span

/-! ## Single values -/

/-- One value of a kind, behind the white space before it. -/
def one (kind : Value → Prop) : Span := fun values start e =>
  ∃ i, Gap values start i ∧ (∃ v ∈ values[i]?, kind v) ∧ e = i + 1

/-- One comma. -/
def comma : Span := one (·.isComma)

/-- A span from the beginning of a list that leaves nothing but white space. -/
def Covers (span : Span) (values : List Value) : Prop :=
  ∃ e, span values 0 e ∧ Gap values e values.length

/-- One function or block whose contents are covered. -/
def group (inside : Value → Option (List Value)) (contents : Span) : Span :=
  one fun v => ∃ vs ∈ inside v, contents.Covers vs

/-- White space, which must be there if it is required. -/
def whitespace (required : Bool) : Span := fun values start e =>
  Gap values start e ∧ (required → e ≠ start)

/-- Nothing, where no white space follows. -/
def noWhitespace : Span := fun values start e =>
  e = start ∧ ∀ v ∈ values[start]?, ¬v.isWhitespace

/-! ## Combinations -/

def oneOf (parts : List Span) : Span := fun values start e => ∃ part ∈ parts, part values start e

/-- A span right here or behind one comma. -/
def afterGap (commas : Bool) (span : Span) : Span := fun values start e =>
  if commas then ∃ m, comma values start m ∧ span values m e else span values start e

/-- Parts one after the other, where something stands before the first. -/
def andThen (commas : Bool) : List Span → Span
  | [] => fun _ start e => e = start
  | part :: parts => fun values start e =>
      ∃ m, afterGap commas part values start m ∧ andThen commas parts values m e

/-- Parts one after the other, with exactly one comma between neighbours if commas are called
for. -/
def inOrder (commas : Bool) : List Span → Span
  | [] => fun _ start e => e = start
  | part :: parts => fun values start e =>
      ∃ m, part values start m ∧ andThen commas parts values m e

theorem andThen_concat {commas : Bool} {parts : List Span} {part : Span} {values : List Value}
    {start e : Nat} :
    andThen commas (parts ++ [part]) values start e ↔
      ∃ m, andThen commas parts values start m ∧ afterGap commas part values m e := by
  induction parts generalizing start with
  | nil => simp [andThen]
  | cons first rest ih =>
      simp only [List.cons_append, andThen, ih]
      constructor
      · rintro ⟨i, hi, m, hm, last⟩
        exact ⟨m, ⟨i, hi, hm⟩, last⟩
      · rintro ⟨m, ⟨i, hi, hm⟩, last⟩
        exact ⟨i, hi, m, hm, last⟩

/-- A sequence taken apart at its last part. -/
theorem inOrder_concat {commas : Bool} {parts : List Span} {part : Span} {values : List Value}
    {start e : Nat} :
    inOrder commas (parts ++ [part]) values start e ↔
      ∃ m, inOrder commas parts values start m ∧
        afterGap (commas && !parts.isEmpty) part values m e := by
  cases parts with
  | nil => simp [inOrder, andThen, afterGap]
  | cons first rest =>
      simp only [List.cons_append, inOrder, andThen_concat, List.isEmpty_cons, Bool.not_false,
        Bool.and_true]
      constructor
      · rintro ⟨i, hi, m, hm, last⟩
        exact ⟨m, ⟨i, hi, hm⟩, last⟩
      · rintro ⟨m, ⟨i, hi, hm⟩, last⟩
        exact ⟨i, hi, m, hm, last⟩

/-- As many times as the multiplier allows. -/
def repeated (m : Multiplier) (part : Span) : Span := fun values start e =>
  ∃ count, m.least ≤ count ∧ (∀ greatest ∈ m.greatest, count ≤ greatest) ∧
    inOrder m.commas (List.replicate count part) values start e

/-- What a span matches without being empty. -/
def nonempty (span : Span) : Span := fun values start e => span values start e ∧ e ≠ start

/-- Some of the parts in some order, each at most once and none of them empty. If all are required,
each part that is not used has to match nothing behind the others; otherwise one has to be used, or
some part has to match nothing. -/
def anyOrder (allRequired : Bool) (parts : List Span) : Span := fun values start e =>
  ∃ used : List (Fin parts.length), used.Nodup ∧
    inOrder false (used.map fun i => nonempty (parts.get i)) values start e ∧
    if allRequired then ∀ i, i ∉ used → parts.get i values e e
    else used ≠ [] ∨ ∃ part ∈ parts, part values e e

end Span

namespace Grammar

mutual

/-- The grammar matches what lies between two positions. -/
def Matches : Grammar → Span
  | keyword words => Span.one (acceptsKeyword words ·)
  | token kind test => Span.one (acceptsToken kind test ·)
  | customProperty => Span.one (acceptsCustomProperty ·)
  | delim chars => Span.one (acceptsDelim chars ·)
  | whitespace required => Span.whitespace required
  | noWhitespace => Span.noWhitespace
  | function name g => Span.group (argumentsOf? name) g.Matches
  | block opener g => Span.group (contentsOf? opener) g.Matches
  | oneOf gs => Span.oneOf (matchesOf gs)
  | inOrder commas gs => Span.inOrder commas (matchesOf gs)
  | repeated m g => Span.repeated m g.Matches
  | anyOrder all gs => Span.anyOrder all (matchesOf gs)

/-- What several grammars match. -/
def matchesOf : List Grammar → List Span
  | [] => []
  | g :: gs => g.Matches :: matchesOf gs

end

mutual

/-- No repetition in the grammar repeats something that can match nothing. -/
def RepeatsAdvance : Grammar → Prop
  | keyword _ | token _ _ | customProperty | delim _ | whitespace _ | noWhitespace => True
  | function _ g | block _ g => g.RepeatsAdvance
  | oneOf gs | inOrder _ gs | anyOrder _ gs => allRepeatsAdvance gs
  | repeated _ g => (∀ values start, ¬g.Matches values start start) ∧ g.RepeatsAdvance

def allRepeatsAdvance : List Grammar → Prop
  | [] => True
  | g :: gs => g.RepeatsAdvance ∧ allRepeatsAdvance gs

end

end Grammar

end CssSieve
