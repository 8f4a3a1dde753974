import CssSieve.Proofs.Grammar.Leaves
import CssSieve.Proofs.Value.Respelling

/-!
# Grammars do not see the case of names

Keywords, units and the names of functions are compared without ASCII case, so a search in values
that are spelled differently is the same search: the same ends in the same order, and the same
faults (`search_respelled`). Only the tests of single tokens could see a difference; a grammar is
`CaseBlind` if none of its tests does. Everything that puts searches together looks at the list
through its parts, and at where white space and commas stand.
-/

namespace CssSieve

namespace Search

/-! ## Lists with the same gaps -/

/-- White space and commas stand in the same places of two lists. -/
structure SameGaps (xs ys : List Value) : Prop where
  length : xs.length = ys.length
  afterGap : ∀ comma pos, afterGap? comma xs pos = afterGap? comma ys pos

variable {xs ys : List Value} {part : Search} {parts : List Search}

theorem onceMore_eq (gaps : SameGaps xs ys) (h : part xs = part ys) (comma : Bool) :
    onceMore part comma xs = onceMore part comma ys := by
  funext pos
  rw [onceMore, onceMore, gaps.afterGap, h]

theorem oneOf_eq (h : ∀ part ∈ parts, part xs = part ys) : oneOf parts xs = oneOf parts ys := by
  funext start
  have same : Outcome.gather (fun part => part xs start) parts =
      Outcome.gather (fun part => part ys start) parts := by
    induction parts with
    | nil => rfl
    | cons part parts ih =>
        obtain ⟨first, others⟩ := List.forall_mem_cons.mp h
        rw [Outcome.gather, Outcome.gather, first, ih others]
  rw [oneOf, oneOf, same]

theorem fromEach_eq (gaps : SameGaps xs ys) (h : part xs = part ys) (comma : Bool) :
    fromEach comma part xs = fromEach comma part ys := by
  funext positions
  show (Outcome.gather (onceMore part comma xs) positions).dedup =
    (Outcome.gather (onceMore part comma ys) positions).dedup
  rw [onceMore_eq gaps h]

theorem inOrderFrom_eq (gaps : SameGaps xs ys) (h : ∀ part ∈ parts, part xs = part ys)
    (commas : Bool) : inOrderFrom commas xs parts = inOrderFrom commas ys parts := by
  induction parts with
  | nil => rfl
  | cons part parts ih =>
      obtain ⟨first, others⟩ := List.forall_mem_cons.mp h
      funext positions
      simp only [inOrderFrom, fromEach_eq gaps first, ih others]

theorem inOrder_eq (gaps : SameGaps xs ys) (h : ∀ part ∈ parts, part xs = part ys)
    (commas : Bool) : inOrder commas parts xs = inOrder commas parts ys := by
  funext start
  cases parts with
  | nil => rfl
  | cons part parts =>
      obtain ⟨first, others⟩ := List.forall_mem_cons.mp h
      simp only [inOrder, fromEach_eq gaps first, inOrderFrom_eq gaps others]

theorem rung_eq (gaps : SameGaps xs ys) (h : part xs = part ys) (comma : Bool) :
    rung part comma xs = rung part comma ys := by
  funext positions
  induction positions with
  | nil => rfl
  | cons pos rest ih => rw [rung, rung, ih, onceMore_eq gaps h]

theorem climb_eq (gaps : SameGaps xs ys) (h : part xs = part ys) (m : Multiplier) (steps : Nat) :
    climb m part xs steps = climb m part ys steps := by
  induction steps with
  | zero => rfl
  | succ steps ih =>
      funext count tried level
      simp only [climb, rung_eq gaps h, ih]

theorem repeated_eq (gaps : SameGaps xs ys) (h : part xs = part ys) (m : Multiplier) :
    repeated m part xs = repeated m part ys := by
  funext start
  have levels : levelsFrom m part xs start = levelsFrom m part ys start := by
    rw [levelsFrom, gaps.length, climb_eq gaps h, levelsFrom]
  rw [repeated, repeated, levels]

theorem tryUnused_eq {parts : List (Search × Nat)} (h : ∀ p ∈ parts, p.1 xs = p.1 ys) :
    tryUnused parts xs = tryUnused parts ys := by
  funext pos used
  apply List.map_congr_left
  intro p listed
  rw [h p (List.mem_of_mem_filter listed)]

theorem explore_eq {parts : List (Search × Nat)} (h : ∀ p ∈ parts, p.1 xs = p.1 ys)
    (allRequired : Bool) (unused : Nat) :
    explore allRequired parts xs unused = explore allRequired parts ys unused := by
  induction unused with
  | zero =>
      funext state x
      rw [explore, explore, tryUnused_eq h]
  | succ unused ih =>
      funext state x
      simp only [explore, tryUnused_eq h, ih]

theorem anyOrder_eq (h : ∀ part ∈ parts, part xs = part ys) (allRequired : Bool) :
    anyOrder allRequired parts xs = anyOrder allRequired parts ys := by
  funext start
  have each : ∀ p ∈ parts.zipIdx, p.1 xs = p.1 ys :=
    fun p listed => h p.1 (List.fst_mem_of_mem_zipIdx listed)
  rw [anyOrder, anyOrder, explore_eq each]

end Search

variable {c : Respelling} {xs ys : List Value}

theorem Value.RespelledAll.sameGaps (h : RespelledAll c xs ys) : Search.SameGaps xs ys :=
  ⟨h.length_eq, h.afterGap?_eq⟩

namespace Search

theorem matchesAll_respelled (h : Value.RespelledAll c xs ys) {search : Search}
    (same : search xs = search ys) : search.matchesAll xs = search.matchesAll ys := by
  simp only [matchesAll, same, h.skipWhitespace_eq, h.length_eq]

/-! ## Single values -/

theorem one_respelled (h : Value.RespelledAll c xs ys) {accepts : Value → Bool}
    (blind : ∀ v w : Value, v.Respelled c w → accepts v = accepts w) :
    one accepts xs = one accepts ys := by
  funext start
  have both := h.nextValue?_rel start
  rw [one, one]
  generalize nextValue? xs start = found, nextValue? ys start = found' at both
  cases both with
  | none => rfl
  | some same => simp only [same.1, blind _ _ same.2]

theorem group_respelled (h : Value.RespelledAll c xs ys) {inside : Value → Option (List Value)}
    (opens : ∀ v w : Value, v.Respelled c w →
      Option.Rel (Value.RespelledAll c) (inside v) (inside w))
    {contents : Search} (same : ∀ vs ws, Value.RespelledAll c vs ws → contents vs = contents ws)
    (fault : Fault) : group inside fault contents xs = group inside fault contents ys := by
  funext start
  have both := h.nextValue?_rel start
  rw [group, group]
  generalize nextValue? xs start = found, nextValue? ys start = found' at both
  cases both with
  | none => rfl
  | @some found found' alike =>
      obtain ⟨i, v⟩ := found
      obtain ⟨j, w⟩ := found'
      obtain ⟨rfl, alike⟩ : i = j ∧ v.Respelled c w := alike
      have opened := opens v w alike
      simp only
      generalize inside v = left, inside w = right at opened
      cases opened with
      | none => rfl
      | some held => simp only [matchesAll_respelled held (same _ _ held)]

theorem whitespace_respelled (h : Value.RespelledAll c xs ys) (required : Bool) :
    whitespace required xs = whitespace required ys := by
  funext start
  rw [whitespace, whitespace, h.skipWhitespace_eq]

theorem noWhitespace_respelled (h : Value.RespelledAll c xs ys) :
    noWhitespace xs = noWhitespace ys := by
  funext start
  have both := rel_getElem? h start
  rw [noWhitespace, noWhitespace]
  generalize xs[start]? = found, ys[start]? = found' at both
  cases both with
  | none => rfl
  | some same => simp only [Option.map_some, same.isWhitespace_eq]

end Search

namespace Grammar

/-! ## Tests of single tokens -/

/-- The leaf has no test that sees how a token is spelled. -/
def BlindLeaf : Grammar → Prop
  | token _ (some test) => ∀ (c : Respelling) (s t : Token), s.Respelled c t → test s = test t
  | _ => True

/-- No test in the grammar sees how a token is spelled. -/
def CaseBlind (g : Grammar) : Prop := g.Leaves BlindLeaf

theorem isInteger_respelled {s t : Token} (h : s.Respelled c t) : s.isInteger = t.isInteger := by
  rw [Token.isInteger, Token.isInteger, h.numeric?_eq]

theorem value?_respelled {s t : Token} (h : s.Respelled c t) : s.value? = t.value? := by
  rw [Token.value?, Token.value?, h.numeric?_eq]

theorem isZero_respelled {s t : Token} (h : s.Respelled c t) : isZero s = isZero t := by
  rw [isZero, isZero, value?_respelled h]

theorem valueIn_respelled {s t : Token} (h : s.Respelled c t) (low high : Float) :
    s.valueIn low high = t.valueIn low high := by
  rw [Token.valueIn, Token.valueIn, value?_respelled h]

theorem hasUnit_respelled {s t : Token} (h : s.Respelled c t) (units : List String) :
    hasUnit units s = hasUnit units t := by
  have both := h.unit?_rel
  rw [hasUnit, hasUnit]
  generalize s.unit? = left, t.unit? = right at both
  cases both with
  | none => rfl
  | some same => exact Text.caselessMem_congr same units

theorem isCustomIdent_respelled {s t : Token} (h : s.Respelled c t) :
    isCustomIdent s = isCustomIdent t := by
  have both := h.text?_rel
  rw [isCustomIdent, isCustomIdent]
  generalize s.text? = left, t.text? = right at both
  cases both with
  | none => rfl
  | some same => simp only [Text.caseless_congr same, Text.caselessMem_congr same]

theorem isHexColor_respelled {s t : Token} (h : s.Respelled c t) (lengths : List Nat) :
    isHexColor lengths s = isHexColor lengths t := by
  cases h <;> rfl

instance : Usual BlindLeaf where
  keyword _ := trivial
  delim _ := trivial
  customProperty := trivial
  anyToken _ := trivial
  integer _ _ _ := isInteger_respelled
  zero _ _ _ := isZero_respelled
  dimension units _ _ _ h := hasUnit_respelled h units
  customIdent _ _ _ := isCustomIdent_respelled
  hexColor lengths _ _ _ h := isHexColor_respelled h lengths
  valueIn _ low high _ _ _ h := valueIn_respelled h low high

/-! ## What single values are accepted -/

theorem acceptsWord_respelled {a b : String} (h : c.names a b) (words : List String) :
    acceptsWord words a = acceptsWord words b := by
  rw [acceptsWord, acceptsWord, ← Text.startsWith_congr h.same]
  split
  next dashed => rw [h.eq_of_dashed dashed]
  next => exact Text.caselessMem_congr h.same words

theorem acceptsKeyword_respelled {v w : Value} (h : v.Respelled c w) (words : List String) :
    acceptsKeyword words v = acceptsKeyword words w := by
  cases h with
  | token h =>
      cases h with
      | ident h => exact acceptsWord_respelled h words
      | function _ | atKeyword _ | dimension _ | nameless _ => rfl
  | function _ _ | block _ => rfl

theorem acceptsToken_respelled {v w : Value} (h : v.Respelled c w) {kind : TokenKind}
    {test : Option (Token → Bool)} (blind : BlindLeaf (token kind test)) :
    acceptsToken kind test v = acceptsToken kind test w := by
  cases h with
  | @token s t h =>
      cases test with
      | none => rw [acceptsToken, acceptsToken, h.kind_eq]; rfl
      | some test =>
          have same : test s = test t := blind c s t h
          simp only [acceptsToken, h.kind_eq, Option.map_some, same]
  | function _ _ | block _ => rfl

theorem acceptsCustomProperty_respelled {v w : Value} (h : v.Respelled c w) :
    acceptsCustomProperty v = acceptsCustomProperty w := by
  cases h with
  | token h =>
      cases h with
      | ident h => exact h.isCustomPropertyName_eq
      | function _ | atKeyword _ | dimension _ | nameless _ => rfl
  | function _ _ | block _ => rfl

theorem acceptsDelim_respelled {v w : Value} (h : v.Respelled c w) (chars : List Char) :
    acceptsDelim chars v = acceptsDelim chars w := by
  cases h with
  | token h => cases h <;> rfl
  | function _ _ | block _ => rfl

theorem argumentsOf?_respelled {v w : Value} (h : v.Respelled c w) (name : String) :
    Option.Rel (Value.RespelledAll c) (argumentsOf? name v) (argumentsOf? name w) := by
  cases h with
  | token _ | block _ => exact .none
  | function same held =>
      rw [argumentsOf?, argumentsOf?, Text.caseless_congr (c.same same)]
      split
      · exact .some held
      · exact .none

theorem contentsOf?_respelled {v w : Value} (h : v.Respelled c w) (opener : Char) :
    Option.Rel (Value.RespelledAll c) (contentsOf? opener v) (contentsOf? opener w) := by
  cases h with
  | token _ | function _ _ => exact .none
  | block held =>
      rw [contentsOf?, contentsOf?]
      split
      · exact .some held
      · exact .none

/-! ## All grammars -/

mutual

/-- **A search does not see the case of names.** -/
theorem search_respelled : (g : Grammar) → g.CaseBlind → (xs ys : List Value) →
    Value.RespelledAll c xs ys → g.search xs = g.search ys
  | keyword words, _, _, _, h =>
      Search.one_respelled h fun _ _ same => acceptsKeyword_respelled same words
  | token _ _, blind, _, _, h =>
      Search.one_respelled h fun _ _ same => acceptsToken_respelled same blind
  | customProperty, _, _, _, h =>
      Search.one_respelled h fun _ _ same => acceptsCustomProperty_respelled same
  | delim chars, _, _, _, h =>
      Search.one_respelled h fun _ _ same => acceptsDelim_respelled same chars
  | whitespace required, _, _, _, h => Search.whitespace_respelled h required
  | noWhitespace, _, _, _, h => Search.noWhitespace_respelled h
  | function name g, blind, _, _, h =>
      Search.group_respelled h (fun _ _ same => argumentsOf?_respelled same name)
        (search_respelled g blind) (.arguments name)
  | block opener g, blind, _, _, h =>
      Search.group_respelled h (fun _ _ same => contentsOf?_respelled same opener)
        (search_respelled g blind) (.contents opener)
  | oneOf gs, blind, xs, ys, h => Search.oneOf_eq (searches_respelled gs blind xs ys h)
  | inOrder commas gs, blind, xs, ys, h =>
      Search.inOrder_eq h.sameGaps (searches_respelled gs blind xs ys h) commas
  | repeated m g, blind, xs, ys, h =>
      Search.repeated_eq h.sameGaps (search_respelled g blind xs ys h) m
  | anyOrder all gs, blind, xs, ys, h =>
      Search.anyOrder_eq (searches_respelled gs blind xs ys h) all

theorem searches_respelled : (gs : List Grammar) → allLeaves BlindLeaf gs →
    (xs ys : List Value) → Value.RespelledAll c xs ys → ∀ part ∈ searches gs, part xs = part ys
  | [], _, _, _, _ => by simp [searches]
  | g :: gs, blind, xs, ys, h => by
      intro part listed
      rcases List.mem_cons.mp listed with rfl | listed
      · exact search_respelled g blind.1 xs ys h
      · exact searches_respelled gs blind.2 xs ys h part listed

end

variable {g : Grammar}

theorem CaseBlind.matchesAll_eq (blind : g.CaseBlind) (h : Value.RespelledAll c xs ys) :
    g.matchesAll xs = g.matchesAll ys :=
  Search.matchesAll_respelled h (search_respelled g blind xs ys h)

theorem CaseBlind.faults_eq (blind : g.CaseBlind) (h : Value.RespelledAll c xs ys) :
    g.faults xs = g.faults ys := by
  rw [faults, faults, search_respelled g blind xs ys h]

end Grammar

end CssSieve
