import CssSieve.MediaQuery
import CssSieve.Proofs.Grammar.Language
import CssSieve.Proofs.Grammar.Splitting

/-!
# How conditions are joined in media queries

White space left out, the values of a media query are a word of a regular language over four kinds
of values: the words `not`, `only`, `and` and `or`, media, and terms in parentheses. The languages
of words that never mix `and` with `or`, and of words in which a term follows each of the two, are
closed under products, so it is enough to look at the few factors that a query is put together of.
-/

namespace CssSieve.MediaQuery

open Grammar
open scoped Computability

/-! ## The values of a query -/

/-- An identifier that is the word, in any ASCII case. -/
def isWord (word : String) : Value → Bool
  | .token (.ident name) => Text.caseless word name
  | _ => false

/-- An identifier that is none of the words that media are joined with. -/
def isMedium : Value → Bool
  | .token (.ident name) => !Text.caselessMem name ["not", "only", "and", "or"]
  | _ => false

/-- A term in parentheses. -/
def isParens : Value → Bool
  | .block opener _ => opener == '('
  | _ => false

/-- One of the words that join two terms. -/
def joins (v : Value) : Bool := isWord "and" v || isWord "or" v

section

variable {v : Value} {word other : String}

theorem not_isWord_of_isWord (h : isWord word v) (ne : Text.lower word ≠ Text.lower other) :
    ¬isWord other v := by
  intro h'
  cases v with
  | token t =>
      cases t with
      | ident name =>
          rw [isWord, Text.caseless, beq_iff_eq] at h h'
          exact ne (h.trans h'.symm)
      | _ => cases h
  | _ => cases h

theorem not_isWord_of_isParens (h : isParens v) : ¬isWord word v := by
  cases v <;> first | cases h | exact Bool.false_ne_true

theorem not_isMedium_of_isParens (h : isParens v) : ¬isMedium v := by
  cases v <;> first | cases h | exact Bool.false_ne_true

theorem not_isWord_of_isMedium (h : isMedium v) (listed : word ∈ ["not", "only", "and", "or"]) :
    ¬isWord word v := by
  intro h'
  cases v with
  | token t =>
      cases t with
      | ident name =>
          have joined : Text.caselessMem name ["not", "only", "and", "or"] :=
            List.any_eq_true.mpr ⟨word, listed, h'⟩
          simp [isMedium, joined] at h
      | _ => cases h
  | _ => cases h

theorem isWord_of_acceptsKeyword {words : List String} (h : acceptsKeyword words v) :
    ∃ word ∈ words, isWord word v := by
  cases v with
  | token t =>
      cases t with
      | ident name =>
          rw [acceptsKeyword, acceptsWord] at h
          split at h
          · exact ⟨name, List.contains_iff_mem.mp h, Text.caseless_refl name⟩
          · exact List.any_eq_true.mp h
      | _ => cases h
  | _ => cases h

/-- What is taken for a medium is no reserved word. -/
theorem isMedium_of_accepts (h : acceptsToken .ident (some isMediaType) v) :
    isMedium v ∧ ¬isWord "layer" v := by
  cases v with
  | token t =>
      cases t with
      | ident name =>
          have free : Text.caselessMem name reservedWords = false := by
            simpa [acceptsToken, isMediaType, Token.text?, Token.kind] using h
          simp only [Text.caselessMem, reservedWords, List.any_cons, List.any_nil,
            Bool.or_eq_false_iff] at free
          simp [isMedium, isWord, Text.caselessMem, free]
      | _ => cases h
  | _ => cases h

end

/-! ## The words of a query -/

def oneWord (word : String) : Language Value := oneValue (isWord word ·)

def parens : Language Value := oneValue (isParens ·)

def medium : Language Value := oneValue fun v => isMedium v ∧ ¬isWord "layer" v

/-- The words before a medium. -/
def modifier : Language Value := oneValue fun v => isWord "not" v ∨ isWord "only" v

/-- A term with the word that joins it to what stands before it. -/
def link (word : String) : Language Value := oneWord word * parens

/-- A condition without `or`. -/
def conditionWords : Language Value := oneWord "not" * parens + parens * (link "and")∗

def queryWords : Language Value :=
  conditionWords + parens * (link "or")∗ +
    (1 + modifier) * (medium * (1 + oneWord "and" * conditionWords))

section

variable {p : Primitives} {term : Grammar}

theorem spells_word (w : String) : (word w).Spells (oneWord w) := by
  refine spells_of_finds_one (keyword_finds [w]) fun v accepted => ?_
  obtain ⟨_, listed, h⟩ := isWord_of_acceptsKeyword accepted
  rwa [List.mem_singleton.mp listed] at h

theorem spells_block (g : Grammar) : (block '(' g).Spells parens := by
  refine spells_of_finds_one (block_finds '(' g) fun v accepted => ?_
  obtain ⟨vs, inside, -⟩ := accepted
  rw [eq_block_of_contentsOf? inside]
  rfl

theorem spells_inParens (p : Primitives) (depth : Nat) : (inParens p depth).Spells parens := by
  have plain : (feature p).Spells parens := spells_block _
  cases depth with
  | zero => exact plain
  | succ depth =>
      have nested := spells_block (conditionOf (inParens p depth) true)
      have either := plain.oneOf_cons (nested.oneOf_cons spells_oneOf_nil)
      rwa [add_zero, add_idem] at either

theorem spells_chain (h : term.Spells parens) (w : String) :
    (atLeastOne (seq [word w, term])).Spells (link w * (link w)∗) := by
  have pair := (spells_word w).seq_cons (h.seq_cons spells_seq_nil)
  rw [mul_one] at pair
  exact pair.atLeastOne

theorem spells_conditionOf_and (h : term.Spells parens) :
    (conditionOf term false).Spells conditionWords := by
  have negated := (spells_word "not").seq_cons (h.seq_cons spells_seq_nil)
  have chain := ((spells_chain h "and").oneOf_cons spells_oneOf_nil).optional
  have spells := negated.oneOf_cons ((h.seq_cons (chain.seq_cons spells_seq_nil)).oneOf_cons
    spells_oneOf_nil)
  simp only [mul_one, add_zero, one_add_mul_kstar] at spells
  exact spells

theorem spells_conditionOf (h : term.Spells parens) :
    (conditionOf term true).Spells (conditionWords + parens * (link "or")∗) := by
  have negated := (spells_word "not").seq_cons (h.seq_cons spells_seq_nil)
  have chain := ((spells_chain h "and").oneOf_cons
    ((spells_chain h "or").oneOf_cons spells_oneOf_nil)).optional
  have spells := negated.oneOf_cons ((h.seq_cons (chain.seq_cons spells_seq_nil)).oneOf_cons
    spells_oneOf_nil)
  refine spells.mono ?_
  have le : 1 + (link "and" * (link "and")∗ + link "or" * (link "or")∗) ≤
      (link "and")∗ + (link "or")∗ := by
    rw [← add_assoc, one_add_mul_kstar]
    exact add_le_add_right mul_kstar_le_kstar _
  rw [mul_one, mul_one, add_zero, add_zero, conditionWords, add_assoc, ← mul_add]
  exact add_le_add_right (mul_le_mul_right le _) _

theorem spells_query (p : Primitives) : (query p).Spells queryWords := by
  have modifiers : (keyword ["not", "only"]).Spells modifier :=
    spells_of_finds_one (keyword_finds _) fun v accepted => by
      simpa using isWord_of_acceptsKeyword accepted
  have media : (tokenThat .ident isMediaType).Spells medium :=
    spells_of_finds_one (token_finds _ _) fun _ => isMedium_of_accepts
  have terms := spells_inParens p maxNesting
  have joined := ((spells_word "and").seq_cons
    ((spells_conditionOf_and terms).seq_cons spells_seq_nil)).optional
  have spells := (spells_conditionOf terms).oneOf_cons
    ((modifiers.optional.seq_cons (media.seq_cons (joined.seq_cons spells_seq_nil))).oneOf_cons
      spells_oneOf_nil)
  simp only [mul_one, add_zero] at spells
  exact spells

end

/-! ## What follows the words that join -/

/-- What follows `and` or `or`: a term in parentheses. Behind the `and` of a medium, a `not` may
come first. -/
def Followed (front : List Value) (v : Value) (back : List Value) : Prop :=
  (∃ term rest, back = term :: rest ∧ isParens term) ∨
    isWord "and" v ∧ (∃ m ∈ front.getLast?, isMedium m) ∧
      ∃ negation term rest, back = negation :: term :: rest ∧ isWord "not" negation ∧
        isParens term

/-- Every `and` and `or` of a word that stands behind other values is followed as it should be. -/
def EachFollowed (before w : List Value) : Prop :=
  ∀ front v back, w = front ++ v :: back → joins v → Followed (before ++ front) v back

def followedWords : Language Value := {w | EachFollowed [] w}

section

variable {v : Value} {before front back w : List Value}

theorem eachFollowed_nil : EachFollowed before [] := by
  intro front v back cut
  simp at cut

theorem eachFollowed_cons : EachFollowed before (v :: w) ↔
    (joins v → Followed before v w) ∧ EachFollowed (before ++ [v]) w := by
  constructor
  · intro h
    refine ⟨fun isJoin => ?_, fun front u back cut isJoin => ?_⟩
    · simpa using h [] v w rfl isJoin
    · rw [List.append_assoc]
      exact h (v :: front) u back (congrArg (v :: ·) cut) isJoin
  · rintro ⟨first, others⟩ front u back cut isJoin
    cases front with
    | nil =>
        obtain ⟨rfl, rfl⟩ := List.cons.inj cut
        simpa using first isJoin
    | cons x front =>
        obtain ⟨rfl, rfl⟩ := List.cons.inj cut
        simpa using others front u back rfl isJoin

theorem Followed.append_right (h : Followed front v back) (ys : List Value) :
    Followed front v (back ++ ys) := by
  rcases h with ⟨term, rest, rfl, isTerm⟩ | ⟨isAnd, media, n, term, rest, rfl, isNot, isTerm⟩
  · exact Or.inl ⟨term, rest ++ ys, rfl, isTerm⟩
  · exact Or.inr ⟨isAnd, media, n, term, rest ++ ys, rfl, isNot, isTerm⟩

theorem Followed.append_left (h : Followed front v back) (xs : List Value) :
    Followed (xs ++ front) v back := by
  rcases h with direct | ⟨isAnd, ⟨m, last, isM⟩, negated⟩
  · exact Or.inl direct
  · refine Or.inr ⟨isAnd, ⟨m, ?_, isM⟩, negated⟩
    rw [List.getLast?_append, Option.mem_def.mp last, Option.some_or]
    rfl

theorem closed_followedWords : Closed followedWords where
  one_le := by
    rintro w rfl
    exact eachFollowed_nil
  mul_self_le := by
    intro w word front v back cut isJoin
    obtain ⟨xs, hxs, ys, hys, rfl⟩ := Language.mem_mul.mp word
    rcases List.append_eq_append_iff.mp cut with ⟨between, rfl, rfl⟩ | ⟨between, rfl, later⟩
    · exact (hys between v back rfl isJoin).append_left xs
    · cases between with
      | nil =>
          obtain rfl : v :: back = ys := by simpa using later
          simpa using (hys [] v back rfl isJoin).append_left front
      | cons u between =>
          obtain ⟨rfl, rfl⟩ : v = u ∧ back = between ++ ys := by simpa using later
          exact (hxs front v between rfl isJoin).append_right ys

/-- A value that joins nothing asks for nothing behind it. -/
theorem oneValue_le_followedWords {kind : Value → Prop} (h : ∀ v, kind v → ¬joins v) :
    oneValue kind ≤ followedWords := by
  rintro w ⟨v, rfl, hv⟩
  exact eachFollowed_cons.mpr ⟨fun isJoin => absurd isJoin (h v hv), eachFollowed_nil⟩

theorem not_joins_iff : ¬joins v ↔ ¬isWord "and" v ∧ ¬isWord "or" v := by simp [joins]

theorem not_joins_of_isParens (h : isParens v) : ¬joins v :=
  not_joins_iff.mpr ⟨not_isWord_of_isParens h, not_isWord_of_isParens h⟩

theorem not_joins_of_isMedium (h : isMedium v) : ¬joins v :=
  not_joins_iff.mpr
    ⟨not_isWord_of_isMedium h (by decide), not_isWord_of_isMedium h (by decide)⟩

theorem not_joins_of_isNot (h : isWord "not" v) : ¬joins v :=
  not_joins_iff.mpr
    ⟨not_isWord_of_isWord h (by decide +kernel), not_isWord_of_isWord h (by decide +kernel)⟩

theorem not_joins_of_isOnly (h : isWord "only" v) : ¬joins v :=
  not_joins_iff.mpr
    ⟨not_isWord_of_isWord h (by decide +kernel), not_isWord_of_isWord h (by decide +kernel)⟩

theorem parens_le_followedWords : parens ≤ followedWords :=
  oneValue_le_followedWords fun _ => not_joins_of_isParens

theorem link_le_followedWords (word : String) : link word ≤ followedWords := by
  intro w spelt
  obtain ⟨_, ⟨join, rfl, -⟩, _, ⟨term, rfl, isTerm⟩, rfl⟩ := Language.mem_mul.mp spelt
  refine eachFollowed_cons.mpr ⟨fun _ => Or.inl ⟨term, [], rfl, isTerm⟩, ?_⟩
  exact eachFollowed_cons.mpr
    ⟨fun isJoin => absurd isJoin (not_joins_of_isParens isTerm), eachFollowed_nil⟩

/-- A medium with a condition that is negated. -/
theorem medium_not_le_followedWords :
    medium * (oneWord "and" * (oneWord "not" * parens)) ≤ followedWords := by
  intro w spelt
  obtain ⟨_, ⟨m, rfl, isM, -⟩, _, joined, rfl⟩ := Language.mem_mul.mp spelt
  obtain ⟨_, ⟨join, rfl, isAnd⟩, _, negated, rfl⟩ := Language.mem_mul.mp joined
  obtain ⟨_, ⟨n, rfl, isNot⟩, _, ⟨term, rfl, isTerm⟩, rfl⟩ := Language.mem_mul.mp negated
  refine eachFollowed_cons.mpr ⟨fun isJoin => absurd isJoin (not_joins_of_isMedium isM), ?_⟩
  refine eachFollowed_cons.mpr ⟨fun _ => ?_, ?_⟩
  · exact Or.inr ⟨isAnd, ⟨m, rfl, isM⟩, n, term, [], rfl, isNot, isTerm⟩
  refine eachFollowed_cons.mpr
    ⟨fun isJoin => absurd isJoin (not_joins_of_isNot isNot), ?_⟩
  exact eachFollowed_cons.mpr
    ⟨fun isJoin => absurd isJoin (not_joins_of_isParens isTerm), eachFollowed_nil⟩

theorem queryWords_le_followedWords : queryWords ≤ followedWords := by
  have closed := closed_followedWords
  have negation : oneWord "not" ≤ followedWords :=
    oneValue_le_followedWords fun _ => not_joins_of_isNot
  have chain (word : String) : parens * (link word)∗ ≤ followedWords :=
    closed.mul_kstar_le parens_le_followedWords (link_le_followedWords word)
  have media : medium ≤ followedWords :=
    oneValue_le_followedWords fun _ isM => not_joins_of_isMedium isM.1
  have modifiers : 1 + modifier ≤ followedWords := by
    refine add_le closed.one_le (oneValue_le_followedWords ?_)
    rintro v (isNot | isOnly)
    · exact not_joins_of_isNot isNot
    · exact not_joins_of_isOnly isOnly
  -- what `and` joins to a medium is its own link, or is negated
  have behind : medium * (1 + oneWord "and" * conditionWords) =
      medium + medium * (oneWord "and" * (oneWord "not" * parens)) +
        medium * (link "and" * (link "and")∗) := by
    simp only [conditionWords, link, mul_add, mul_one, mul_assoc, add_assoc]
  have links : medium * (link "and" * (link "and")∗) ≤ followedWords :=
    closed.mul_le media (closed.mul_kstar_le (link_le_followedWords _) (link_le_followedWords _))
  refine add_le (add_le (add_le ?_ (chain "and")) (chain "or")) (closed.mul_le modifiers ?_)
  · exact closed.mul_le negation parens_le_followedWords
  · rw [behind]
    exact add_le (add_le media medium_not_le_followedWords) links

end

/-! ## What words stand together -/

/-- What a query without `or` is made of. -/
def IsWithoutOr (v : Value) : Prop := ¬isWord "or" v ∧ ¬isWord "layer" v

/-- What a query with `or` is made of. -/
def IsWithoutAnd (v : Value) : Prop := ¬isWord "and" v ∧ ¬isMedium v ∧ ¬isWord "layer" v

theorem oneWord_le_withoutOr {word : String}
    (ne : Text.lower word ≠ Text.lower "or" ∧ Text.lower word ≠ Text.lower "layer") :
    oneWord word ≤ allValues IsWithoutOr :=
  oneValue_le_allValues fun _ isW =>
    ⟨not_isWord_of_isWord isW ne.1, not_isWord_of_isWord isW ne.2⟩

theorem conditionWords_le_withoutOr : conditionWords ≤ allValues IsWithoutOr := by
  have closed := closed_allValues IsWithoutOr
  have negation : oneWord "not" ≤ allValues IsWithoutOr := oneWord_le_withoutOr (by decide +kernel)
  have join : oneWord "and" ≤ allValues IsWithoutOr := oneWord_le_withoutOr (by decide +kernel)
  have terms : parens ≤ allValues IsWithoutOr := oneValue_le_allValues fun _ isTerm =>
    ⟨not_isWord_of_isParens isTerm, not_isWord_of_isParens isTerm⟩
  exact add_le (closed.mul_le negation terms)
    (closed.mul_kstar_le terms (closed.mul_le join terms))

theorem mediumWords_le_withoutOr :
    (1 + modifier) * (medium * (1 + oneWord "and" * conditionWords)) ≤ allValues IsWithoutOr := by
  have closed := closed_allValues IsWithoutOr
  have modifiers : modifier ≤ allValues IsWithoutOr := by
    apply oneValue_le_allValues
    rintro v (isNot | isOnly)
    · exact ⟨not_isWord_of_isWord isNot (by decide +kernel),
        not_isWord_of_isWord isNot (by decide +kernel)⟩
    · exact ⟨not_isWord_of_isWord isOnly (by decide +kernel),
        not_isWord_of_isWord isOnly (by decide +kernel)⟩
  have media : medium ≤ allValues IsWithoutOr := oneValue_le_allValues fun _ isM =>
    ⟨not_isWord_of_isMedium isM.1 (by decide), isM.2⟩
  have join : oneWord "and" ≤ allValues IsWithoutOr := oneWord_le_withoutOr (by decide +kernel)
  exact closed.mul_le (add_le closed.one_le modifiers) <|
    closed.mul_le media (add_le closed.one_le (closed.mul_le join conditionWords_le_withoutOr))

theorem orWords_le_withoutAnd : parens * (link "or")∗ ≤ allValues IsWithoutAnd := by
  have closed := closed_allValues IsWithoutAnd
  have terms : parens ≤ allValues IsWithoutAnd := oneValue_le_allValues fun _ isTerm =>
    ⟨not_isWord_of_isParens isTerm, not_isMedium_of_isParens isTerm, not_isWord_of_isParens isTerm⟩
  have join : oneWord "or" ≤ allValues IsWithoutAnd := oneValue_le_allValues fun _ isOr =>
    ⟨not_isWord_of_isWord isOr (by decide +kernel),
      fun isM => not_isWord_of_isMedium isM (by decide) isOr,
      not_isWord_of_isWord isOr (by decide +kernel)⟩
  exact closed.mul_kstar_le terms (closed.mul_le join terms)

theorem queryWords_le_allValues :
    queryWords ≤ allValues IsWithoutOr + allValues IsWithoutAnd := by
  have le_left {L : Language Value} (h : L ≤ allValues IsWithoutOr) :
      L ≤ allValues IsWithoutOr + allValues IsWithoutAnd := h.trans le_self_add
  refine add_le (add_le (le_left conditionWords_le_withoutOr) ?_)
    (le_left mediumWords_le_withoutOr)
  exact orWords_le_withoutAnd.trans le_add_self

/-! ## Queries and their lists -/

/-- How the words of a query join its conditions. -/
structure Joined (w : List Value) : Prop where
  /-- `and` and `or` are not mixed. -/
  unmixed : ¬((∃ v ∈ w, isWord "and" v) ∧ ∃ v ∈ w, isWord "or" v)
  /-- No `or` stands with a medium. -/
  without_or : (∃ v ∈ w, isMedium v) → ∀ v ∈ w, ¬isWord "or" v
  followed : ∀ front v back, w = front ++ v :: back → joins v → Followed front v back
  without_layer : ∀ v ∈ w, ¬isWord "layer" v

theorem joined_of_mem_queryWords {w : List Value} (h : w ∈ queryWords) : Joined w := by
  have followed : EachFollowed [] w := queryWords_le_followedWords h
  rcases queryWords_le_allValues h with withoutOr | withoutAnd
  · exact {
      unmixed := fun ⟨_, v, listed, isOr⟩ => (withoutOr v listed).1 isOr
      without_or := fun _ v listed => (withoutOr v listed).1
      followed := followed
      without_layer := fun v listed => (withoutOr v listed).2 }
  · exact {
      unmixed := fun ⟨⟨v, listed, isAnd⟩, _⟩ => (withoutAnd v listed).1 isAnd
      without_or := fun ⟨v, listed, isM⟩ => absurd isM (withoutAnd v listed).2.1
      followed := followed
      without_layer := fun v listed => (withoutAnd v listed).2.2 }

theorem joined_nil : Joined [] where
  unmixed := by simp
  without_or := by simp
  followed := by simp
  without_layer := by simp

theorem advances_query (p : Primitives) : Search.Advances (query p).search := by
  refine (spells_query p).advances ?_
  simp only [queryWords, conditionWords, oneWord, parens, medium, Language.mem_add,
    nil_mem_mul_iff, nil_not_mem_oneValue, false_and, and_false, or_false, not_false_eq_true]

theorem noComma_query (p : Primitives) : (query p).Takes Value.NoComma := by
  have terms (depth : Nat) : (inParens p depth).Takes Value.NoComma := by
    cases depth <;> simp [inParens, feature]
  have media : (tokenThat .ident isMediaType).Takes Value.NoComma := noComma_token (by decide) _
  have words (w : String) : (word w).Takes Value.NoComma := noComma_keyword [w]
  have chains (w : String) (depth : Nat) :
      (atLeastOne (seq [word w, inParens p depth])).Takes Value.NoComma := by
    simp [atLeastOne, Takes, words, terms]
  simp [query, condition, conditionOf, words, terms, chains, media]

/-- **`and` and `or` are never mixed.** In each query of a list, white space left out, there is not
both an `and` and an `or`, and with a medium there is no `or`; a term in parentheses follows each
`and` and each `or`, with at most a `not` before it where a medium is joined; and no identifier is
`layer`. -/
theorem joined_of_matchesAll (p : Primitives) {values : List Value}
    (accepted : (list p).matchesAll values) : ∀ piece ∈ pieces values, Joined (solid piece) := by
  intro piece listed
  rcases matchesAll_optional_iff_gap.mp accepted with blank | matched
  · have nothing : solid values = [] := by rw [← spelled_length, spelled_of_gap blank]
    rcases pieces_cases values with ⟨-, split⟩ | ⟨xs, c, ys, -, comma, rfl, -⟩
    · rw [split, List.mem_singleton] at listed
      rw [listed, nothing]
      exact joined_nil
    · have dark : ¬c.isWhitespace := Value.not_isWhitespace_of_isComma comma
      have left_over : c ∈ solid (xs ++ c :: ys) := List.mem_filter.mpr (by simp [dark])
      rw [nothing] at left_over
      cases left_over
  · have each := (matchesAll_commaList_iff (advances_query p) (noComma_query p) values).mp matched
    exact joined_of_mem_queryWords ((spells_query p).matchesAll (each piece listed))

theorem joined_of_matchesAll_screen :
    let screen : Value := .token (.ident "screen")
    let term (name : String) : Value := .block '(' [.token (.ident name)]
    let values := [screen, .token .whitespace, .token (.ident "and"), .token .whitespace,
      .token (.ident "not"), .token .whitespace, term "color", .token .comma, term "grid",
      .token (.ident "or"), term "hover"]
    (list .standard).matchesAll values ∧ ∀ piece ∈ pieces values, Joined (solid piece) := by
  intro screen term values
  have accepted : (list .standard).matchesAll values := by decide +kernel
  exact ⟨accepted, joined_of_matchesAll .standard accepted⟩

end CssSieve.MediaQuery
