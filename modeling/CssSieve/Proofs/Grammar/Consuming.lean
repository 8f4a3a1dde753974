import CssSieve.Proofs.Grammar.Greedy
import CssSieve.Proofs.Grammar.Separating

/-!
# What matches consume

A match consumes the values between its two ends: one after the other, those that the productions
for single values accept, and white space before them. So what holds of all values that a grammar
accepts at its top level holds of all values of a match (`takes_search`); what is inside of
functions and blocks is theirs. A sequence consumes something as soon as its first part does.
-/

namespace CssSieve

namespace Span

variable {ok : Value → Prop} {span : Span} {parts : List Span}

/-- All values of a match are of a kind, white space apart. -/
def Takes (ok : Value → Prop) (span : Span) : Prop :=
  ∀ ⦃values : List Value⦄ ⦃start e : Nat⦄, span values start e →
    ∀ i, start ≤ i → i < e → ∀ v ∈ values[i]?, v.isWhitespace ∨ ok v

theorem takes_gap : Takes ok Gap := by
  intro values start e gap i low high v found
  obtain ⟨w, hw, white⟩ := gap.2.1 i low high
  obtain rfl : w = v := Option.some.inj (hw.symm.trans found)
  exact Or.inl white

/-- Where a list is covered, all its values are of the kind. -/
theorem Takes.of_covers (h : span.Takes ok) {values : List Value} (covered : span.Covers values) :
    ∀ v ∈ values, v.isWhitespace ∨ ok v := by
  obtain ⟨e, found, gap⟩ := covered
  intro v listed
  obtain ⟨i, inside, hi⟩ := List.getElem_of_mem listed
  have here : values[i]? = some v := List.getElem?_eq_some_iff.mpr ⟨inside, hi⟩
  rcases Nat.lt_or_ge i e with before | behind
  · exact h found i (Nat.zero_le i) before v here
  · exact takes_gap gap i behind inside v here

theorem takes_one {kind : Value → Prop} (h : ∀ v, ¬v.isWhitespace → kind v → ok v) :
    (one kind).Takes ok := by
  rintro values start _ ⟨k, gap, ⟨w, hw, accepted⟩, rfl⟩ i low high v found
  rcases Nat.lt_or_eq_of_le (Nat.le_of_lt_succ high) with before | rfl
  · exact takes_gap gap i low before v found
  · obtain rfl : w = v := Option.some.inj (hw.symm.trans found)
    exact Or.inr (h w (gap.2.2 w hw) accepted)

theorem takes_whitespace (required : Bool) : (whitespace required).Takes ok := by
  intro values start e h
  exact takes_gap h.1

theorem takes_empty : Takes ok fun _ start e => e = start := by
  rintro values start _ rfl i low high
  omega

theorem takes_noWhitespace : noWhitespace.Takes ok := by
  intro values start e h
  exact takes_empty h.1

theorem takes_oneOf (h : ∀ part ∈ parts, part.Takes ok) : (oneOf parts).Takes ok := by
  rintro values start e ⟨part, listed, he⟩
  exact h part listed he

/-- One span behind another: a value is consumed by the first or by the second. -/
theorem Takes.trans (h : span.Takes ok) {next : Span} (hn : next.Takes ok) :
    Takes ok fun values start e => ∃ m, span values start m ∧ next values m e := by
  rintro values start e ⟨m, first, second⟩ i low high v found
  rcases Nat.lt_or_ge i m with before | behind
  · exact h first i low before v found
  · exact hn second i behind high v found

theorem Takes.afterGap (h : span.Takes ok) {commas : Bool}
    (comma : commas → ∀ v : Value, v.isComma → ok v) : (afterGap commas span).Takes ok := by
  cases commas with
  | false => exact h
  | true => exact (takes_one fun v _ => comma rfl v).trans h

theorem takes_andThen {commas : Bool} (comma : commas → ∀ v : Value, v.isComma → ok v)
    (h : ∀ part ∈ parts, part.Takes ok) : (andThen commas parts).Takes ok := by
  induction parts with
  | nil => exact takes_empty
  | cons part parts ih =>
      obtain ⟨first, others⟩ := List.forall_mem_cons.mp h
      exact (first.afterGap comma).trans (ih others)

theorem takes_inOrder {commas : Bool} (comma : commas → ∀ v : Value, v.isComma → ok v)
    (h : ∀ part ∈ parts, part.Takes ok) : (inOrder commas parts).Takes ok := by
  cases parts with
  | nil => exact takes_empty
  | cons part parts =>
      obtain ⟨first, others⟩ := List.forall_mem_cons.mp h
      exact first.trans (takes_andThen comma others)

theorem takes_anyOrder (h : ∀ part ∈ parts, part.Takes ok) (allRequired : Bool) :
    (anyOrder allRequired parts).Takes ok := by
  rintro values start e ⟨used, -, sequence, -⟩
  refine takes_inOrder (fun _ => by contradiction) ?_ sequence
  intro span hs values start e he
  obtain ⟨i, -, rfl⟩ := List.mem_map.mp hs
  exact h _ (List.get_mem parts i) he.1

end Span

namespace Search

variable {ok : Value → Prop} {part : Search} {parts : List Search} {m : Multiplier}

theorem Finds.takes {search : Search} {span : Span} (h : search.Finds span)
    (takes : span.Takes ok) : search.span.Takes ok := by
  intro values start e he
  exact takes ((h values start e).mp he)

theorem takes_span_of_mem (h : ∀ part ∈ parts, part.span.Takes ok) :
    ∀ s ∈ parts.map Search.span, s.Takes ok := by
  intro s hs
  obtain ⟨part, hpart, rfl⟩ := List.mem_map.mp hs
  exact h part hpart

theorem takes_repeated (forward : part.Forward) (comma : m.commas → ∀ v : Value, v.isComma → ok v)
    (h : part.span.Takes ok) : (repeated m part).span.Takes ok := by
  have climbed {values : List Value} {start n e : Nat} (climbs : Climbs m part values start n e) :
      ∀ i, start ≤ i → i < e → ∀ v ∈ values[i]?, v.isWhitespace ∨ ok v := by
    refine Span.takes_inOrder comma ?_ climbs.inOrder
    intro span hs
    exact List.eq_of_mem_replicate hs ▸ h
  intro values start e he
  rcases (mem_ends_repeated_iff forward).mp he with ⟨n, -, climbs⟩ | ⟨n, -, climbs, -⟩
  · exact climbed climbs
  · exact climbed climbs

/-! ## Matches that are not empty -/

theorem advances_of_finds_one {search : Search} {kind : Value → Prop}
    (h : search.Finds (Span.one kind)) : search.Advances := by
  intro values start blank
  exact Nat.lt_irrefl start (Span.one_advances ((h values start start).mp blank)).1

theorem advances_oneOf (h : ∀ part ∈ parts, part.Advances) : (oneOf parts).Advances := by
  intro values start blank
  obtain ⟨part, listed, blank⟩ := mem_ends_oneOf.mp blank
  exact h part listed values start blank

theorem advances_inOrder {commas : Bool} (h : part.Advances) (forward : part.Forward)
    (others : ∀ next ∈ parts, next.Forward) : (inOrder commas (part :: parts)).Advances := by
  intro values start blank
  obtain ⟨m, first, rest⟩ := (inOrder_finds (findsAll_span _) commas values start start).mp blank
  have moved : m ≠ start := fun same => h values start (same ▸ first)
  have ahead := forward values start m first
  have behind := Span.forward_andThen (forward_span_of_mem others) commas rest
  omega

end Search

namespace Grammar

variable {ok : Value → Prop}

mutual

/-- All values are of a kind that the grammar accepts at its top level, white space apart. -/
def Takes (ok : Value → Prop) : Grammar → Prop
  | keyword words => ∀ v, ¬v.isWhitespace → acceptsKeyword words v → ok v
  | token kind test => ∀ v, ¬v.isWhitespace → acceptsToken kind test v → ok v
  | customProperty => ∀ v, ¬v.isWhitespace → acceptsCustomProperty v → ok v
  | delim chars => ∀ v, ¬v.isWhitespace → acceptsDelim chars v → ok v
  | whitespace _ | noWhitespace => True
  | function name g => ∀ v, ¬v.isWhitespace → (∃ vs ∈ argumentsOf? name v, g.matchesAll vs) → ok v
  | block opener g => ∀ v, ¬v.isWhitespace → (∃ vs ∈ contentsOf? opener v, g.matchesAll vs) → ok v
  | oneOf gs | anyOrder _ gs => allTake ok gs
  | inOrder commas gs => (commas → ∀ v : Value, v.isComma → ok v) ∧ allTake ok gs
  | repeated m g => (m.commas → ∀ v : Value, v.isComma → ok v) ∧ Takes ok g

def allTake (ok : Value → Prop) : List Grammar → Prop
  | [] => True
  | g :: gs => Takes ok g ∧ allTake ok gs

end

theorem allTake_iff {gs : List Grammar} : allTake ok gs ↔ ∀ g ∈ gs, g.Takes ok := by
  induction gs with
  | nil => simp [allTake]
  | cons g gs ih => rw [allTake, ih, List.forall_mem_cons]

theorem keyword_finds (words : List String) :
    Search.Finds (keyword words).search (Span.one (acceptsKeyword words ·)) :=
  Search.one_finds (acceptsKeyword words)

theorem token_finds (kind : TokenKind) (test : Option (Token → Bool)) :
    Search.Finds (token kind test).search (Span.one (acceptsToken kind test ·)) :=
  Search.one_finds (acceptsToken kind test)

theorem delim_finds (chars : List Char) :
    Search.Finds (delim chars).search (Span.one (acceptsDelim chars ·)) :=
  Search.one_finds (acceptsDelim chars)

theorem customProperty_finds :
    Search.Finds customProperty.search (Span.one (acceptsCustomProperty ·)) :=
  Search.one_finds acceptsCustomProperty

/-- A function is a single value, and its arguments are matched as a list of their own. -/
theorem function_finds (name : String) (g : Grammar) :
    Search.Finds (function name g).search
      (Span.one fun v => ∃ vs ∈ argumentsOf? name v, g.matchesAll vs) := by
  simp only [matchesAll_iff_covers_span]
  exact Search.group_finds (argumentsOf? name) (.arguments name) (Search.finds_span g.search)

theorem block_finds (opener : Char) (g : Grammar) :
    Search.Finds (block opener g).search
      (Span.one fun v => ∃ vs ∈ contentsOf? opener v, g.matchesAll vs) := by
  simp only [matchesAll_iff_covers_span]
  exact Search.group_finds (contentsOf? opener) (.contents opener) (Search.finds_span g.search)

mutual

/-- **The values of a match** are of the kind that the grammar accepts. -/
theorem takes_search : (g : Grammar) → g.Takes ok → (Search.span g.search).Takes ok
  | keyword words, h => (keyword_finds words).takes (Span.takes_one h)
  | token kind test, h => (token_finds kind test).takes (Span.takes_one h)
  | customProperty, h => customProperty_finds.takes (Span.takes_one h)
  | delim chars, h => (delim_finds chars).takes (Span.takes_one h)
  | whitespace required, _ =>
      (Search.whitespace_finds required).takes (Span.takes_whitespace required)
  | noWhitespace, _ => Search.noWhitespace_finds.takes Span.takes_noWhitespace
  | function name g, h => (function_finds name g).takes (Span.takes_one h)
  | block opener g, h => (block_finds opener g).takes (Span.takes_one h)
  | oneOf gs, h =>
      (Search.oneOf_finds (Search.findsAll_span _)).takes
        (Span.takes_oneOf (Search.takes_span_of_mem (takes_searches gs h)))
  | inOrder commas gs, h =>
      (Search.inOrder_finds (Search.findsAll_span _) commas).takes
        (Span.takes_inOrder h.1 (Search.takes_span_of_mem (takes_searches gs h.2)))
  | repeated _ g, h => Search.takes_repeated (forward_search g) h.1 (takes_search g h.2)
  | anyOrder all gs, h =>
      (Search.anyOrder_finds (Search.findsAll_span _) all).takes
        (Span.takes_anyOrder (Search.takes_span_of_mem (takes_searches gs h)) all)

theorem takes_searches : (gs : List Grammar) → allTake ok gs →
    ∀ part ∈ searches gs, part.span.Takes ok
  | [], _ => by simp [searches]
  | g :: gs, h => by
      intro part hpart
      rcases List.mem_cons.mp hpart with rfl | hpart
      · exact takes_search g h.1
      · exact takes_searches gs h.2 part hpart

end

mutual

theorem Takes.mono {ok' : Value → Prop} (imp : ∀ v, ok v → ok' v) :
    (g : Grammar) → g.Takes ok → g.Takes ok'
  | keyword _, h | token _ _, h | customProperty, h | delim _, h | function _ _, h | block _ _, h =>
      fun v solid accepted => imp v (h v solid accepted)
  | whitespace _, _ | noWhitespace, _ => trivial
  | oneOf gs, h | anyOrder _ gs, h => allTake.mono imp gs h
  | inOrder _ gs, h => ⟨fun commas v comma => imp v (h.1 commas v comma), allTake.mono imp gs h.2⟩
  | repeated _ g, h => ⟨fun commas v comma => imp v (h.1 commas v comma), Takes.mono imp g h.2⟩

theorem allTake.mono {ok' : Value → Prop} (imp : ∀ v, ok v → ok' v) :
    (gs : List Grammar) → allTake ok gs → allTake ok' gs
  | [], _ => trivial
  | g :: gs, h => ⟨Takes.mono imp g h.1, allTake.mono imp gs h.2⟩

end

/-! ## Shorthands -/

section

variable {g : Grammar} {gs : List Grammar} {least greatest : Nat}

@[simp] theorem takes_oneOf : (oneOf gs).Takes ok ↔ ∀ g ∈ gs, g.Takes ok := allTake_iff

@[simp] theorem takes_seq : (seq gs).Takes ok ↔ ∀ g ∈ gs, g.Takes ok := by
  simp [seq, Takes, allTake_iff]

@[simp] theorem takes_allOf : (allOf gs).Takes ok ↔ ∀ g ∈ gs, g.Takes ok := allTake_iff

@[simp] theorem takes_noWhitespace : noWhitespace.Takes ok := trivial

@[simp] theorem takes_touching {h : Grammar} :
    (touching g h).Takes ok ↔ g.Takes ok ∧ h.Takes ok := by
  simp [touching]

@[simp] theorem takes_optional : (optional g).Takes ok ↔ g.Takes ok := by simp [optional, Takes]

@[simp] theorem takes_many : (many g).Takes ok ↔ g.Takes ok := by simp [many, Takes]

end

end Grammar

end CssSieve
