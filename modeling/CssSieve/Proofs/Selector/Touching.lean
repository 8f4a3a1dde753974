import CssSieve.Proofs.Grammar.Tight
import CssSieve.Proofs.Selector.Splitting
import Mathlib.Data.List.Chain

/-!
# Type selectors behind other simple selectors

A type selector comes first in its compound selector. But white space is passed over between
compound selectors and a combinator may be missing, so that a compound selector may also begin
right behind another one: `[a]b` is accepted. Such places are all that tells the selectors accepted
from those with white space or a combinator between any two compound selectors.
-/

namespace CssSieve.Selector

open Grammar

/-! ## Values at the ends of simple selectors -/

/-- A type selector, the universal one included. -/
def isType : Value → Bool
  | .token (.ident _) => true
  | .token (.delim c) => c == '*'
  | _ => false

/-- A value that a simple selector can end with. -/
def endsSimple : Value → Bool
  | .token (.ident _) | .token (.hash _ _) | .function _ _ => true
  | .token (.delim c) => c == '*'
  | .block opener _ => opener == '['
  | _ => false

/-- No type selector touches the end of a simple selector. -/
def Apart (values : List Value) : Prop := values.IsChain fun u v => ¬(endsSimple u ∧ isType v)

instance (values : List Value) : Decidable (Apart values) :=
  inferInstanceAs (Decidable (values.IsChain _))

/-- A value that is neither. -/
def IsPlain (v : Value) : Prop := ¬endsSimple v ∧ ¬isType v

section

variable {xs ys values sep : List Value} {v : Value} {start e : Nat}

theorem endsSimple_of_isType (h : isType v) : endsSimple v := by
  cases v with
  | token t => cases t <;> first | rfl | exact h
  | _ => cases h

theorem isPlain_of_isWhitespace (h : v.isWhitespace) : IsPlain v := by
  cases v with
  | token t => cases t <;> first | exact ⟨Bool.false_ne_true, Bool.false_ne_true⟩ | cases h
  | _ => cases h

theorem isPlain_of_isComma (h : v.isComma) : IsPlain v := by
  rw [Value.isComma_iff.mp h]
  exact ⟨Bool.false_ne_true, Bool.false_ne_true⟩

theorem isPlain_of_gap (gap : Gap values start e) : ∀ v ∈ slice values start e, IsPlain v := by
  intro v listed
  obtain ⟨i, low, high, found⟩ := exists_of_mem_slice listed
  obtain ⟨w, here, white⟩ := gap.2.1 i low high
  obtain rfl : v = w := Option.some.inj (found.symm.trans here)
  exact isPlain_of_isWhitespace white

theorem apart_append : Apart (xs ++ ys) ↔
    Apart xs ∧ Apart ys ∧ ∀ u ∈ xs.getLast?, ∀ v ∈ ys.head?, ¬(endsSimple u ∧ isType v) :=
  List.isChain_append

theorem apart_cons : Apart (v :: xs) ↔
    (∀ w ∈ xs.head?, ¬(endsSimple v ∧ isType w)) ∧ Apart xs :=
  List.isChain_cons

theorem apart_of_plain (plain : ∀ v ∈ xs, IsPlain v) : Apart xs := by
  induction xs with
  | nil => exact .nil
  | cons v xs ih =>
      obtain ⟨first, others⟩ := List.forall_mem_cons.mp plain
      exact apart_cons.mpr ⟨fun _ _ h => first.1 h.1, ih others⟩

theorem apart_plain_append (plain : ∀ v ∈ sep, IsPlain v) (apart : Apart ys) :
    Apart (sep ++ ys) :=
  apart_append.mpr ⟨apart_of_plain plain, apart, fun u last _ _ h =>
    (plain u (List.mem_of_getLast? last)).1 h.1⟩

theorem apart_append_plain (apart : Apart xs) (plain : ∀ v ∈ sep, IsPlain v) :
    Apart (xs ++ sep) :=
  apart_append.mpr ⟨apart, apart_of_plain plain, fun _ _ v first h =>
    (plain v (List.mem_of_mem_head? first)).2 h.2⟩

/-- Something plain in between holds two lists apart. -/
theorem apart_append_plain_append (before : Apart xs) (plain : ∀ v ∈ sep, IsPlain v)
    (some_between : sep ≠ []) (behind : Apart ys) : Apart (xs ++ (sep ++ ys)) := by
  refine apart_append.mpr ⟨before, apart_plain_append plain behind, fun _ _ v first h => ?_⟩
  rw [List.head?_append_of_ne_nil _ some_between] at first
  exact (plain v (List.mem_of_mem_head? first)).2 h.2

/-- Commas hold the pieces of a list apart. -/
theorem apart_iff_pieces (values : List Value) :
    Apart values ↔ ∀ piece ∈ pieces values, Apart piece := by
  rcases pieces_cases values with ⟨-, split⟩ | ⟨xs, c, ys, -, comma, same, split⟩
  · simp [split]
  · have between : ∀ v ∈ [c], IsPlain v :=
      List.forall_mem_singleton.mpr (isPlain_of_isComma comma)
    have cut : Apart values ↔ Apart xs ∧ Apart ys := by
      rw [same]
      constructor
      · intro h
        obtain ⟨before, behind, -⟩ := apart_append.mp h
        exact ⟨before, (apart_cons.mp behind).2⟩
      · rintro ⟨before, behind⟩
        exact apart_append_plain_append before between (List.cons_ne_nil c []) behind
    rw [split, List.forall_mem_cons, cut, apart_iff_pieces ys]
termination_by values.length
decreasing_by
  rw [same, List.length_append, List.length_cons]
  omega

/-- Where the values are apart, no type selector stands behind the end of a simple one. -/
theorem Apart.not_isType (apart : Apart values)
    (ends : ∃ u ∈ (values.take e).getLast?, endsSimple u) (found : values[e]? = some v) :
    ¬isType v := by
  intro type
  obtain ⟨u, last, simple⟩ := ends
  rw [← List.take_append_drop e values] at apart
  obtain ⟨-, -, between⟩ := apart_append.mp apart
  exact between u last v (by rw [List.head?_drop, found]; rfl) ⟨simple, type⟩

end

/-! ## The words of simple and compound selectors -/

/-- A simple selector that is no type, or several that touch. -/
def simpleWords : Language Value :=
  {w | Apart w ∧ (∀ v ∈ w.head?, ¬isType v) ∧ ∃ v ∈ w.getLast?, endsSimple v}

def compoundWords : Language Value := {w | Apart w ∧ ∃ v ∈ w.getLast?, endsSimple v}

theorem oneValue_le_compoundWords : oneValue (endsSimple ·) ≤ compoundWords := by
  rintro w ⟨v, rfl, ends⟩
  exact ⟨.singleton v, v, rfl, ends⟩

theorem simpleWords_le_compoundWords : simpleWords ≤ compoundWords :=
  fun _ word => ⟨word.1, word.2.2⟩

theorem oneValue_le_simpleWords :
    oneValue (fun v => endsSimple v ∧ ¬isType v) ≤ simpleWords := by
  rintro w ⟨v, rfl, ends, noType⟩
  exact ⟨.singleton v, by simpa using noType, v, rfl, ends⟩

/-- Behind `.` or `:` stands a word that may look like a type selector. -/
theorem plain_mul_le_simpleWords : oneValue IsPlain * compoundWords ≤ simpleWords := by
  intro w spelt
  obtain ⟨_, ⟨v, rfl, plain⟩, rest, ⟨apart, u, last, ends⟩, rfl⟩ := Language.mem_mul.mp spelt
  refine ⟨apart_plain_append (List.forall_mem_singleton.mpr plain) apart, ?_, u, ?_, ends⟩
  · simpa using plain.2
  · rw [List.getLast?_append, Option.mem_def.mp last]
    rfl

theorem compoundWords_mul_le : compoundWords * simpleWords ≤ compoundWords := by
  intro w spelt
  obtain ⟨xs, ⟨before, -⟩, ys, ⟨behind, noType, v, last, ends⟩, rfl⟩ := Language.mem_mul.mp spelt
  refine ⟨apart_append.mpr ⟨before, behind, fun _ _ w first h => noType w first h.2⟩, v, ?_, ends⟩
  rw [List.getLast?_append, Option.mem_def.mp last]
  rfl

/-! ## Simple and compound selectors are words -/

theorem isType_iff (v : Value) :
    isType v ↔ acceptsToken .ident none v ∨ acceptsDelim ['*'] v := by
  cases v with
  | token t => cases t <;> simp [isType, acceptsToken, acceptsDelim, Token.kind]
  | _ => simp [isType, acceptsToken, acceptsDelim]

theorem typeSelector_finds : Search.Finds typeSelector.search (Span.one (isType ·)) := by
  intro values start e
  have idents := token_finds .ident none values start e
  have stars := delim_finds ['*'] values start e
  refine span_oneOf_pair.trans ((or_congr idents stars).trans ?_)
  constructor
  · rintro (⟨i, gap, ⟨v, here, accepted⟩, rfl⟩ | ⟨i, gap, ⟨v, here, accepted⟩, rfl⟩)
    · exact ⟨i, gap, ⟨v, here, (isType_iff v).mpr (Or.inl accepted)⟩, rfl⟩
    · exact ⟨i, gap, ⟨v, here, (isType_iff v).mpr (Or.inr accepted)⟩, rfl⟩
  · rintro ⟨i, gap, ⟨v, here, type⟩, rfl⟩
    rcases (isType_iff v).mp type with accepted | accepted
    · exact Or.inl ⟨i, gap, ⟨v, here, accepted⟩, rfl⟩
    · exact Or.inr ⟨i, gap, ⟨v, here, accepted⟩, rfl⟩

section

variable {g : Grammar} {inner : Option Level} {selectors relative compound : Option Grammar}

@[simp] theorem tight_ident : ident.Tight (oneValue (endsSimple ·)) := by
  refine tight_of_finds_one (token_finds .ident none) fun v accepted => ?_
  cases v with
  | token t => cases t <;> first | rfl | cases accepted
  | _ => cases accepted

@[simp] theorem tight_function (name : String) :
    (function name g).Tight (oneValue (endsSimple ·)) := by
  refine tight_of_finds_one (function_finds name g) fun v accepted => ?_
  obtain ⟨vs, inside, -⟩ := accepted
  obtain ⟨n, rfl⟩ := eq_function_of_argumentsOf? inside
  rfl

theorem tight_colon : colon.Tight (oneValue IsPlain) := by
  refine tight_of_finds_one (token_finds .colon none) fun v accepted => ?_
  cases v with
  | token t => cases t <;> first | exact ⟨Bool.false_ne_true, Bool.false_ne_true⟩ | cases accepted
  | _ => cases accepted

theorem tight_delim {chars : List Char} (other : '*' ∉ chars) :
    (delim chars).Tight (oneValue IsPlain) := by
  refine tight_of_finds_one (delim_finds chars) fun v accepted => ?_
  cases v with
  | token t =>
      cases t with
      | delim c =>
          have ne : c ≠ '*' := by
            rintro rfl
            exact other (List.contains_iff_mem.mp accepted)
          simp [IsPlain, endsSimple, isType, ne]
      | _ => cases accepted
  | _ => cases accepted

/-- Something plain, and behind it a name or a function. -/
theorem tight_touching_name {names : Grammar} (plain : g.Tight (oneValue IsPlain))
    (tight : names.Tight (oneValue (endsSimple ·))) : (touching g names).Tight simpleWords :=
  (plain.touching (tight.mono oneValue_le_compoundWords)).mono plain_mul_le_simpleWords

theorem tight_classSelector : classSelector.Tight simpleWords :=
  tight_touching_name (tight_delim (by decide)) tight_ident

theorem tight_idSelector : idSelector.Tight simpleWords := by
  refine (tight_of_finds_one (token_finds .hash _) fun v accepted => ?_).mono
    oneValue_le_simpleWords
  cases v with
  | token t => cases t <;> first | exact ⟨rfl, Bool.false_ne_true⟩ | cases accepted
  | _ => cases accepted

theorem tight_attributeSelector : attributeSelector.Tight simpleWords := by
  refine (tight_of_finds_one (block_finds '[' _) fun v accepted => ?_).mono
    oneValue_le_simpleWords
  obtain ⟨vs, inside, -⟩ := accepted
  rw [eq_block_of_contentsOf? inside]
  exact ⟨rfl, Bool.false_ne_true⟩

theorem tight_pseudoClass : (pseudoClass selectors relative).Tight simpleWords := by
  refine tight_touching_name tight_colon (tight_oneOf ?_)
  cases selectors <;> cases relative <;> simp

theorem tight_pseudoElement : (pseudoElement compound).Tight simpleWords := by
  have names : (oneOf (function "part" (atLeastOne ident) ::
      compound.toList.map (function "slotted" ·) ++ [ident])).Tight (oneValue (endsSimple ·)) := by
    apply tight_oneOf
    cases compound <;> simp
  refine ((tight_colon.touching tight_colon).touching names).mono ?_
  rw [mul_assoc]
  exact (mul_le_mul' le_rfl ((mul_le_mul' le_rfl oneValue_le_compoundWords).trans
    (plain_mul_le_simpleWords.trans simpleWords_le_compoundWords))).trans plain_mul_le_simpleWords

theorem tight_subclass : (subclass inner).Tight simpleWords := by
  apply tight_oneOf
  simp [tight_classSelector, tight_idSelector, tight_attributeSelector, tight_pseudoElement,
    tight_pseudoClass]

theorem tight_compound : (level inner).compound.Tight compoundWords := by
  have head : (oneOf [typeSelector, subclass inner]).Tight compoundWords := by
    apply tight_oneOf
    have types : typeSelector.Tight compoundWords :=
      (tight_of_finds_one typeSelector_finds fun _ => endsSimple_of_isType).mono
        oneValue_le_compoundWords
    simp [types, tight_subclass.mono simpleWords_le_compoundWords]
  intro values start e found
  obtain ⟨p, first, more⟩ := span_seq_pair.mp found
  obtain ⟨m, gap, before, word⟩ := head first
  obtain ⟨behind, grown⟩ :=
    tight_subclass.extend compoundWords_mul_le (span_many_iff.mp more) before word
  exact ⟨m, gap, Nat.le_trans before behind, grown⟩

/-- Behind a compound selector, the end of a simple one stands before. -/
theorem ends_of_compound {values : List Value} {start e : Nat}
    (found : Search.span (level inner).compound.search values start e) :
    ∃ v ∈ (values.take e).getLast?, endsSimple v := by
  obtain ⟨m, -, before, -, v, last, ends⟩ := tight_compound found
  refine ⟨v, ?_, ends⟩
  rw [take_eq_append_slice before, List.getLast?_append, Option.mem_def.mp last]
  rfl

theorem skipsGaps_compound : (level inner).compound.SkipsGaps := by
  have types : typeSelector.SkipsGaps := skipsGaps_of_finds_one typeSelector_finds
  have dots : (delim ['.']).SkipsGaps := skipsGaps_of_finds_one (delim_finds ['.'])
  have colons : colon.SkipsGaps := skipsGaps_of_finds_one (token_finds .colon none)
  have ids : idSelector.SkipsGaps := skipsGaps_of_finds_one (token_finds .hash _)
  have attributes : attributeSelector.SkipsGaps := skipsGaps_of_finds_one (block_finds '[' _)
  have subclasses : (subclass inner).SkipsGaps := by
    apply skipsGaps_oneOf
    simp only [List.forall_mem_cons, List.not_mem_nil, false_imp_iff, implies_true, and_true]
    exact ⟨skipsGaps_seq dots, ids, attributes, skipsGaps_seq (skipsGaps_seq colons),
      skipsGaps_seq colons⟩
  refine skipsGaps_seq (skipsGaps_oneOf ?_)
  simp only [List.forall_mem_cons, List.not_mem_nil, false_imp_iff, implies_true, and_true]
  exact ⟨types, subclasses⟩

end

/-! ## Selectors with something between any two compound ones -/

/-- What stands between compound selectors: a combinator, or white space that must be there. -/
def separator : Grammar := oneOf [combinator, whitespace true]

/-- A selector in which something stands between any two compound ones. -/
def separated (compound : Grammar) : Grammar := seq [compound, many (seq [separator, compound])]

section

variable {inner : Option Level} {values : List Value} {start m b c e : Nat}

theorem span_whitespace_iff : Search.span (whitespace true).search values start e ↔
    Gap values start e ∧ e ≠ start :=
  (Search.whitespace_finds true values start e).trans (by simp [Span.whitespace])

/-- Plain values, at least one. -/
def plainWords : Language Value := {w | w ≠ [] ∧ ∀ v ∈ w, IsPlain v}

theorem oneValue_le_plainWords : oneValue IsPlain ≤ plainWords := by
  rintro w ⟨v, rfl, plain⟩
  exact ⟨List.cons_ne_nil v [], List.forall_mem_singleton.mpr plain⟩

theorem plainWords_mul_self_le : plainWords * plainWords ≤ plainWords := by
  intro w spelt
  obtain ⟨xs, ⟨some_value, hxs⟩, ys, ⟨-, hys⟩, rfl⟩ := Language.mem_mul.mp spelt
  exact ⟨List.append_ne_nil_of_left_ne_nil some_value ys, List.forall_mem_append.mpr ⟨hxs, hys⟩⟩

theorem tight_combinator : combinator.Tight plainWords := by
  have arrows : (delim ['>', '+', '~']).Tight plainWords :=
    (tight_delim (by decide)).mono oneValue_le_plainWords
  have bar : (delim ['|']).Tight plainWords :=
    (tight_delim (by decide)).mono oneValue_le_plainWords
  have bars : (touching (delim ['|']) (delim ['|'])).Tight plainWords :=
    (bar.touching bar).mono plainWords_mul_self_le
  apply tight_oneOf
  simp only [List.forall_mem_cons, List.not_mem_nil, false_imp_iff, implies_true, and_true]
  exact ⟨arrows, bars⟩

/-- What separates is plain, the white space before it included. -/
theorem plain_of_separator (found : Search.span separator.search values start e) :
    start ≤ e ∧ slice values start e ∈ plainWords := by
  rcases span_oneOf_pair.mp found with combined | white
  · obtain ⟨m, gap, before, some_value, plain⟩ := tight_combinator combined
    refine ⟨Nat.le_trans gap.1 before, ?_⟩
    rw [slice_append gap.1 before]
    exact ⟨List.append_ne_nil_of_right_ne_nil _ some_value,
      List.forall_mem_append.mpr ⟨isPlain_of_gap gap, plain⟩⟩
  · obtain ⟨gap, moves⟩ := span_whitespace_iff.mp white
    have ahead : start < e := Nat.lt_of_le_of_ne gap.1 (Ne.symm moves)
    refine ⟨gap.1, ?_, isPlain_of_gap gap⟩
    obtain ⟨v, here, -⟩ := gap.2.1 start (Nat.le_refl start) ahead
    rw [slice_append (Nat.le_succ start) ahead, slice_succ here]
    exact List.cons_ne_nil v _

/-- A separator and a compound selector keep apart what stands before them. -/
theorem apart_of_separated_step (apart : Apart (values.take b))
    (step : Search.span (seq [separator, (level inner).compound]).search values b c) :
    Apart (values.take c) := by
  obtain ⟨p, between, next⟩ := span_seq_pair.mp step
  obtain ⟨ahead, some_value, plain⟩ := plain_of_separator between
  obtain ⟨m, gap, before, word, -⟩ := tight_compound next
  have plain' : ∀ v ∈ slice values b m, IsPlain v := by
    rw [slice_append ahead gap.1]
    exact List.forall_mem_append.mpr ⟨plain, isPlain_of_gap gap⟩
  have some_between : slice values b m ≠ [] := by
    rw [slice_append ahead gap.1]
    exact List.append_ne_nil_of_left_ne_nil some_value _
  have le := Nat.le_trans ahead gap.1
  rw [take_eq_append_slice (Nat.le_trans le before), slice_append le before]
  exact apart_append_plain_append apart plain' some_between word

theorem apart_of_chain (first : Search.span (level inner).compound.search values 0 b)
    (chain : Relation.ReflTransGen
      (Search.span (seq [separator, (level inner).compound]).search values) b c) :
    Apart (values.take c) := by
  induction chain with
  | refl =>
      obtain ⟨m, gap, before, word, -⟩ := tight_compound first
      rw [take_eq_append_slice before, take_eq_append_slice gap.1]
      exact apart_plain_append (isPlain_of_gap gap) word
  | tail _ step ih => exact apart_of_separated_step ih step

theorem apart_of_separated
    (accepted : (separated (level inner).compound).matchesAll values) : Apart values := by
  obtain ⟨e, found, gap⟩ := (matchesAll_iff_covers_span _ values).mp accepted
  obtain ⟨b, first, run⟩ := span_seq_pair.mp found
  have whole :=
    apart_append_plain (apart_of_chain first (span_many_iff.mp run)) (isPlain_of_gap gap)
  rwa [← take_eq_append_slice gap.1, List.take_length] at whole

/-! ## Missing separators -/

theorem separated_within_complex :
    (separated (level inner).compound).Within (level inner).complex := by
  have steps : (seq [separator, (level inner).compound]).Within
      (seq [optional combinator, (level inner).compound]) := by
    intro values start e found
    obtain ⟨m, between, next⟩ := span_seq_pair.mp found
    rcases span_oneOf_pair.mp between with combined | white
    · exact span_seq_pair.mpr ⟨m, span_optional_iff.mpr (Or.inr combined), next⟩
    · obtain ⟨gap, -⟩ := span_whitespace_iff.mp white
      exact span_seq_pair.mpr ⟨start, span_optional_iff.mpr (Or.inl rfl),
        (skipsGaps_compound gap).mpr next⟩
  exact within_seq (.cons (.refl _) (.cons (within_many steps) .nil))

/-- A compound selector goes on with simple ones that touch it. -/
theorem compound_extend (found : Search.span (level inner).compound.search values start b)
    (chain : Relation.ReflTransGen
      (Search.span (seq [noWhitespace, subclass inner]).search values) b c) :
    Search.span (level inner).compound.search values start c := by
  obtain ⟨p, head, more⟩ := span_seq_pair.mp found
  exact span_seq_pair.mpr ⟨p, head, span_many_iff.mpr ((span_many_iff.mp more).trans chain)⟩

theorem separated_extend
    (found : Search.span (separated (level inner).compound).search values start b)
    (chain : Relation.ReflTransGen
      (Search.span (seq [noWhitespace, subclass inner]).search values) b c) :
    Search.span (separated (level inner).compound).search values start c := by
  obtain ⟨a, first, run⟩ := span_seq_pair.mp found
  rcases Relation.ReflTransGen.cases_tail (span_many_iff.mp run) with rfl | ⟨p, before, last⟩
  · exact span_seq_pair.mpr ⟨c, compound_extend first chain, span_many_iff.mpr .refl⟩
  · obtain ⟨q, between, next⟩ := span_seq_pair.mp last
    have longer := span_seq_pair.mpr ⟨q, between, compound_extend next chain⟩
    exact span_seq_pair.mpr ⟨a, first, span_many_iff.mpr (before.tail longer)⟩

theorem separated_step
    (found : Search.span (separated (level inner).compound).search values start b)
    (step : Search.span (seq [separator, (level inner).compound]).search values b c) :
    Search.span (separated (level inner).compound).search values start c := by
  obtain ⟨a, first, run⟩ := span_seq_pair.mp found
  exact span_seq_pair.mpr ⟨a, first, span_many_iff.mpr ((span_many_iff.mp run).tail step)⟩

/-- Where no type selector touches what stands before it, a further compound selector has something
before it, or only goes on with the one before. -/
theorem separated_of_step (apart : Apart values)
    (found : Search.span (separated (level inner).compound).search values start b)
    (ends : ∃ v ∈ (values.take b).getLast?, endsSimple v)
    (step : Search.span (seq [optional combinator, (level inner).compound]).search values b c) :
    Search.span (separated (level inner).compound).search values start c := by
  obtain ⟨q, between, next⟩ := span_seq_pair.mp step
  rcases span_optional_iff.mp between with rfl | combined
  · by_cases dark : ∀ v ∈ values[q]?, ¬v.isWhitespace
    · obtain ⟨p, head, more⟩ := span_seq_pair.mp next
      rcases span_oneOf_pair.mp head with first | first
      · obtain ⟨i, gap, ⟨v, here, type⟩, -⟩ := (typeSelector_finds values q p).mp first
        obtain rfl := (gap_here dark).unique gap
        exact absurd type (apart.not_isType ends here)
      · have touching := span_seq_pair.mpr ⟨q, span_noWhitespace_iff.mpr ⟨rfl, dark⟩, first⟩
        exact separated_extend found (.head touching (span_many_iff.mp more))
    · have gap := gap_skipWhitespace values q
      generalize skipWhitespace values q = m at gap
      have moves : m ≠ q := by
        rintro rfl
        exact dark gap.2.2
      have white : Search.span separator.search values q m :=
        span_oneOf_pair.mpr (Or.inr (span_whitespace_iff.mpr ⟨gap, moves⟩))
      exact separated_step found
        (span_seq_pair.mpr ⟨m, white, (skipsGaps_compound gap).mp next⟩)
  · have between : Search.span separator.search values b q :=
      span_oneOf_pair.mpr (Or.inl combined)
    exact separated_step found (span_seq_pair.mpr ⟨q, between, next⟩)

theorem separated_of_chain (apart : Apart values)
    (first : Search.span (level inner).compound.search values start b)
    (chain : Relation.ReflTransGen
      (Search.span (seq [optional combinator, (level inner).compound]).search values) b c) :
    Search.span (separated (level inner).compound).search values start c ∧
      ∃ v ∈ (values.take c).getLast?, endsSimple v := by
  induction chain with
  | refl => exact ⟨span_seq_pair.mpr ⟨b, first, span_many_iff.mpr .refl⟩, ends_of_compound first⟩
  | tail _ step ih =>
      obtain ⟨found, ends⟩ := ih
      obtain ⟨q, -, next⟩ := span_seq_pair.mp step
      exact ⟨separated_of_step apart found ends step, ends_of_compound next⟩

theorem complex_iff_separated :
    (level inner).complex.matchesAll values ∧ Apart values ↔
      (separated (level inner).compound).matchesAll values := by
  constructor
  · rintro ⟨accepted, apart⟩
    obtain ⟨e, found, gap⟩ := (matchesAll_iff_covers_span _ values).mp accepted
    obtain ⟨b, first, run⟩ := span_seq_pair.mp found
    obtain ⟨reached, -⟩ := separated_of_chain apart first (span_many_iff.mp run)
    exact (matchesAll_iff_covers_span _ values).mpr ⟨e, reached, gap⟩
  · intro accepted
    exact ⟨separated_within_complex.matchesAll accepted, apart_of_separated accepted⟩

theorem apart_of_compound (accepted : (level inner).compound.matchesAll values) :
    Apart values := by
  have alone : (level inner).compound.Within (separated (level inner).compound) := by
    intro values start e found
    exact span_seq_pair.mpr ⟨e, found, span_many_iff.mpr .refl⟩
  exact apart_of_separated (alone.matchesAll accepted)

theorem list_iff_separated :
    (level inner).list.matchesAll values ∧ Apart values ↔
      (commaList (separated (level inner).compound) 1).matchesAll values := by
  have advances : Search.Advances (separated (level inner).compound).search :=
    advances_seq (advances_compound inner)
  have white : (whitespace true).Takes Value.NoComma := trivial
  have noComma : (separated (level inner).compound).Takes Value.NoComma := by
    simp [separated, separator, noComma_compound, white]
  have selectors : (level inner).list = commaList (level inner).complex 1 := rfl
  rw [selectors, matchesAll_commaList_iff (advances_complex inner) (noComma_complex inner),
    matchesAll_commaList_iff advances noComma, apart_iff_pieces]
  simp only [← complex_iff_separated, forall_and]

end

theorem exists_level (n : Nat) : ∃ inner, nested n = level inner := by
  cases n with
  | zero => exact ⟨none, rfl⟩
  | succ n => exact ⟨some (nested n), rfl⟩

/-- **A type selector comes first** in its compound selector. In a selector or a list of them, at
any depth of nesting, none touches the end of another simple selector if and only if white space or
a combinator stands between any two compound selectors. -/
theorem apart_iff_separated (n : Nat) (values : List Value) :
    ((nested n).compound.matchesAll values → Apart values) ∧
      ((nested n).complex.matchesAll values ∧ Apart values ↔
        (separated (nested n).compound).matchesAll values) ∧
      ((nested n).list.matchesAll values ∧ Apart values ↔
        (commaList (separated (nested n).compound) 1).matchesAll values) := by
  obtain ⟨inner, same⟩ := exists_level n
  rw [same]
  exact ⟨apart_of_compound, complex_iff_separated, list_iff_separated⟩

theorem apart_iff_separated_bracket :
    let bracket : Value := .block '[' [.token (.ident "a")]
    let type : Value := .token (.ident "b")
    (nested maxNesting).compound.matchesAll [type, bracket] ∧ Apart [type, bracket] ∧
      (commaList (separated (nested maxNesting).compound) 1).matchesAll
        [bracket, .token .whitespace, type] ∧
      ¬(commaList (separated (nested maxNesting).compound) 1).matchesAll [bracket, type] := by
  intro bracket type
  have compound : (nested maxNesting).compound.matchesAll [type, bracket] := by decide +kernel
  have accepted : list.matchesAll [bracket, .token .whitespace, type] := by decide +kernel
  have spaced : Apart [bracket, .token .whitespace, type] := by decide
  have touching : ¬Apart [bracket, type] := by decide
  refine ⟨compound, (apart_iff_separated maxNesting _).1 compound,
    (apart_iff_separated maxNesting _).2.2.mp ⟨accepted, spaced⟩, ?_⟩
  intro separated
  exact touching ((apart_iff_separated maxNesting _).2.2.mpr separated).2

/-- `[a]b` is a selector, although its type selector stands right behind an attribute selector. -/
theorem type_behind_attribute :
    let touching : List Value := [.block '[' [.token (.ident "a")], .token (.ident "b")]
    list.matchesAll touching ∧ complex.matchesAll touching ∧ ¬Apart touching := by
  decide +kernel

end CssSieve.Selector
