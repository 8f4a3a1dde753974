import CssSieve.Value.Assembly
import CssSieve.Value.Text

/-!
# Values written back as tokens

`Value.tokens` writes a value as its tokens: a group is its opening token, its contents and its
closing token. Assembly gives well-formed values only, and reads a well-formed value back from its
tokens inside any stack of open groups, unless the value is the very token that the innermost group
waits for.
-/

namespace CssSieve

/-- Whether the token neither opens nor closes a group nor ends the input. -/
def Token.isInner : Token → Bool
  | function _ | leftBracket | leftParen | leftBrace => false
  | rightBracket | rightParen | rightBrace | eof => false
  | _ => true

namespace GroupHead

/-- The token that opens a group. A character that is no bracket has only its delimiter. -/
def opener : GroupHead → Token
  | function name => .function name
  | block '[' => .leftBracket
  | block '(' => .leftParen
  | block '\x7b' => .leftBrace
  | block c => .delim c

/-- Tokens can open such a group: it is a function, or a block in brackets. -/
def Opens (head : GroupHead) : Prop := ofToken? head.opener = some head

theorem opener_of_ofToken? {t : Token} {head : GroupHead} (h : ofToken? t = some head) :
    head.opener = t := by
  unfold ofToken? at h
  split at h
  all_goals cases h
  all_goals rfl

theorem opens_of_ofToken? {t : Token} {head : GroupHead} (h : ofToken? t = some head) :
    head.Opens := by
  rw [Opens, opener_of_ofToken? h, h]

theorem Opens.isEof_opener {head : GroupHead} (h : head.Opens) : head.opener.isEof = false := by
  cases opener : head.opener with
  | eof => simp [Opens, opener, ofToken?] at h
  | _ => rfl

theorem isEof_closer (head : GroupHead) : head.closer.isEof = false := by
  unfold closer
  split <;> rfl

theorem ofToken?_closer (head : GroupHead) : ofToken? head.closer = none := by
  unfold closer
  split <;> rfl

theorem isInner_closer (head : GroupHead) : head.closer.isInner = false := by
  unfold closer
  split <;> rfl

theorem wrap_ne_token (head : GroupHead) (vs : List Value) (t : Token) :
    head.wrap vs ≠ .token t := by
  cases head <;> simp [wrap]

theorem wrap_inj {head head' : GroupHead} {vs vs' : List Value} :
    head.wrap vs = head'.wrap vs' ↔ head = head' ∧ vs = vs' := by
  cases head <;> cases head' <;> simp [wrap]

end GroupHead

namespace Value

/-! ## The tokens of a value -/

mutual

/-- The tokens that a value is written with. -/
def tokens : Value → List Token
  | token t => [t]
  | function name vs => .function name :: (tokensAll vs ++ [.rightParen])
  | block c vs => (GroupHead.block c).opener :: (tokensAll vs ++ [(GroupHead.block c).closer])

/-- The tokens of a list, one value after the other. -/
def tokensAll : List Value → List Token
  | [] => []
  | v :: vs => v.tokens ++ tokensAll vs

end

theorem tokensAll_append (us vs : List Value) :
    tokensAll (us ++ vs) = tokensAll us ++ tokensAll vs := by
  induction us with
  | nil => rfl
  | cons u us ih => rw [List.cons_append, tokensAll, ih, tokensAll, List.append_assoc]

theorem tokens_wrap (head : GroupHead) (vs : List Value) :
    (head.wrap vs).tokens = head.opener :: (tokensAll vs ++ [head.closer]) := by
  cases head <;> rfl

/-! ## The text of the tokens -/

theorem css_opener (c : Char) : (GroupHead.block c).opener.css = c.toString := by
  unfold GroupHead.opener
  split
  next => contradiction
  next h => cases h; rfl
  next h => cases h; rfl
  next h => cases h; rfl
  next h => cases h; rfl

theorem css_closer (c : Char) : (GroupHead.block c).closer.css = (closerOf c).toString := by
  unfold GroupHead.closer closerOf
  split
  next => contradiction
  next h => cases h; rfl
  next h => cases h; rfl
  next square round h =>
    cases h
    split
    next => exact absurd rfl square
    next => exact absurd rfl round
    next => rfl

mutual

/-- The text of a value is that of its tokens, one after the other. -/
theorem join_css_tokens : ∀ v : Value, String.join (v.tokens.map Token.css) = v.css
  | token t => by simp [tokens, css]
  | function name vs => by
      have inner := join_css_tokensAll vs
      simp [tokens, css, Token.css, inner, String.append_assoc]
  | block c vs => by
      have inner := join_css_tokensAll vs
      rw [tokens, List.map_cons, List.map_append, String.join_cons, String.join_append, inner,
        List.map_singleton, String.join_cons, String.join_nil, String.append_empty, css_opener,
        css_closer, css, String.append_assoc]

theorem join_css_tokensAll : ∀ vs : List Value,
    String.join ((tokensAll vs).map Token.css) = cssAll vs
  | [] => rfl
  | v :: vs => by
      rw [tokensAll, List.map_append, String.join_append, join_css_tokens v, join_css_tokensAll vs,
        cssAll]

end

/-! ## Well-formed values -/

/-- What assembly can give. A token does not open a group and is not the end of the input; a group
can be opened by tokens and none of its values is the token that closes it. Closing tokens of other
groups may stand anywhere. -/
inductive WellFormed : Value → Prop where
  | token {t : Token} (inside : t.isEof = false) (plain : GroupHead.ofToken? t = none) :
      WellFormed (.token t)
  | group {head : GroupHead} {vs : List Value} (opens : head.Opens)
      (inner : ∀ v ∈ vs, WellFormed v) (unclosed : ∀ v ∈ vs, v ≠ .token head.closer) :
      WellFormed (head.wrap vs)

theorem WellFormed.of_wrap {head : GroupHead} {vs : List Value} (h : (head.wrap vs).WellFormed) :
    (∀ v ∈ vs, v.WellFormed) ∧ ∀ v ∈ vs, v ≠ .token head.closer := by
  generalize shape : head.wrap vs = v at h
  cases h with
  | token => exact absurd shape (GroupHead.wrap_ne_token _ _ _)
  | group opens inner unclosed =>
      obtain ⟨rfl, rfl⟩ := GroupHead.wrap_inj.mp shape
      exact ⟨inner, unclosed⟩

/-! ## Values inside open groups -/

/-- The value is not the token that closes the innermost group of a stack. -/
def StaysIn (gs : List OpenGroup) (v : Value) : Prop :=
  ∀ g ∈ gs.head?, v ≠ .token g.head.closer

/-- The value can stand in the innermost group of a stack. -/
def Fits (gs : List OpenGroup) (v : Value) : Prop := v.WellFormed ∧ StaysIn gs v

/-- Inside a block in braces. -/
def inBraces : List OpenGroup := [⟨.block '\x7b', []⟩]

variable {gs : List OpenGroup} {inner : List Value} {ts : List Token}

theorem staysIn_wrap (gs : List OpenGroup) (head : GroupHead) (vs : List Value) :
    StaysIn gs (head.wrap vs) :=
  fun _ _ => GroupHead.wrap_ne_token head vs _

theorem fits_token {t : Token} (h : t.isInner = true) : Fits gs (.token t) := by
  have inside : t.isEof = false := by
    cases t <;> first | rfl | cases h
  have plain : GroupHead.ofToken? t = none := by
    cases t <;> first | rfl | cases h
  refine ⟨.token inside plain, ?_⟩
  rintro g - closes
  cases closes
  exact absurd h (by simp [GroupHead.isInner_closer])

theorem fits_braces_iff {vs : List Value} :
    Fits gs (.block '\x7b' vs) ↔ ∀ v ∈ vs, Fits inBraces v := by
  constructor
  · rintro ⟨formed, -⟩
    have formed : ((GroupHead.block '\x7b').wrap vs).WellFormed := formed
    intro v hv
    refine ⟨formed.of_wrap.1 v hv, ?_⟩
    intro g hg
    cases hg
    exact formed.of_wrap.2 v hv
  · intro fits
    have formed : ((GroupHead.block '\x7b').wrap vs).WellFormed :=
      .group rfl (fun v hv => (fits v hv).1) (fun v hv => (fits v hv).2 _ rfl)
    exact ⟨formed, staysIn_wrap gs (.block '\x7b') vs⟩

/-! ## Assembly, one step at a time -/

theorem assemble_of_isEof {t : Token} (h : t.isEof = true) :
    assemble gs inner (t :: ts) = closeAll gs inner := by
  rw [assemble.eq_def]
  simp [h]

theorem assemble_token {t : Token} (inside : t.isEof = false)
    (plain : GroupHead.ofToken? t = none) (stays : StaysIn gs (.token t)) :
    assemble gs inner (t :: ts) = assemble gs (.token t :: inner) ts := by
  rw [assemble.eq_def]
  cases gs with
  | nil => simp [inside, plain]
  | cons g gs =>
      have other : t ≠ g.head.closer := fun e => stays g rfl (congrArg Value.token e)
      simp [inside, plain, other]

theorem assemble_opener {head : GroupHead} (opens : head.Opens) :
    assemble gs inner (head.opener :: ts) = assemble (⟨head, inner⟩ :: gs) [] ts := by
  rw [assemble.eq_def]
  simp [opens.isEof_opener, show GroupHead.ofToken? head.opener = some head from opens]

theorem assemble_closer (head : GroupHead) (before : List Value) :
    assemble (⟨head, before⟩ :: gs) inner (head.closer :: ts) =
      assemble gs (head.wrap inner.reverse :: before) ts := by
  rw [assemble.eq_def]
  simp [GroupHead.isEof_closer, GroupHead.ofToken?_closer]

/-! ## Reading the tokens back -/

/-- Assembly reads the tokens of the value as the value, in every group that it does not close. -/
def ReadBack (v : Value) : Prop :=
  ∀ (gs : List OpenGroup) (inner : List Value) (ts : List Token), StaysIn gs v →
    assemble gs inner (v.tokens ++ ts) = assemble gs (v :: inner) ts

theorem assemble_tokensAll_of_readBack {vs : List Value} (back : ∀ v ∈ vs, v.ReadBack)
    (stays : ∀ v ∈ vs, StaysIn gs v) :
    assemble gs inner (tokensAll vs ++ ts) = assemble gs (vs.reverse ++ inner) ts := by
  induction vs generalizing inner with
  | nil => rfl
  | cons v vs ih =>
      rw [List.forall_mem_cons] at back stays
      rw [tokensAll, List.append_assoc, back.1 gs inner _ stays.1, ih back.2 stays.2]
      simp

theorem WellFormed.readBack {v : Value} (h : v.WellFormed) : v.ReadBack := by
  induction h with
  | token inside plain =>
      intro gs inner ts stays
      exact assemble_token inside plain stays
  | @group head vs opens _ unclosed ih =>
      intro gs inner ts _
      -- The contents stand in the group itself, whose closing token is none of them.
      have stays : ∀ v ∈ vs, StaysIn (⟨head, inner⟩ :: gs) v := by
        intro v hv g hg
        cases hg
        exact unclosed v hv
      rw [tokens_wrap, List.cons_append, List.append_assoc, assemble_opener opens,
        assemble_tokensAll_of_readBack ih stays, List.singleton_append, assemble_closer]
      simp

theorem ofTokens_tokensAll {vs : List Value} (h : ∀ v ∈ vs, v.WellFormed) :
    ofTokens (tokensAll vs) = vs := by
  have back : ∀ v ∈ vs, v.ReadBack := fun v hv => (h v hv).readBack
  have stays : ∀ v ∈ vs, StaysIn [] v := by simp [StaysIn]
  calc ofTokens (tokensAll vs)
    _ = assemble [] [] (tokensAll vs ++ []) := by rw [ofTokens, List.append_nil]
    _ = assemble [] (vs.reverse ++ []) [] := assemble_tokensAll_of_readBack back stays
    _ = vs := by simp [assemble, closeAll]

/-! ## Assembly gives well-formed values -/

/-- Every group of a stack can be opened by tokens, and its values so far are well-formed and do
not close it. -/
def Gathered : List OpenGroup → List Value → Prop
  | [], inner => ∀ v ∈ inner, v.WellFormed
  | g :: gs, inner =>
      g.head.Opens ∧ (∀ v ∈ inner, v.WellFormed ∧ v ≠ .token g.head.closer) ∧
        Gathered gs g.before

theorem Gathered.cons {v : Value} (h : Gathered gs inner) (formed : v.WellFormed)
    (stays : StaysIn gs v) : Gathered gs (v :: inner) := by
  cases gs with
  | nil => exact List.forall_mem_cons.mpr ⟨formed, h⟩
  | cons g gs =>
      obtain ⟨opens, gathered, outer⟩ := h
      exact ⟨opens, List.forall_mem_cons.mpr ⟨⟨formed, stays g rfl⟩, gathered⟩, outer⟩

theorem Gathered.close {g : OpenGroup} (h : Gathered (g :: gs) inner) :
    Gathered gs (g.head.wrap inner.reverse :: g.before) := by
  obtain ⟨opens, gathered, outer⟩ := h
  have formed : (g.head.wrap inner.reverse).WellFormed := by
    refine WellFormed.group opens ?_ ?_
    · intro v hv
      exact (gathered v (List.mem_reverse.mp hv)).1
    · intro v hv
      exact (gathered v (List.mem_reverse.mp hv)).2
  exact outer.cons formed (staysIn_wrap gs _ _)

theorem wellFormed_of_mem_closeAll (h : Gathered gs inner) :
    ∀ v ∈ closeAll gs inner, v.WellFormed := by
  induction gs generalizing inner with
  | nil =>
      intro v hv
      exact h v (List.mem_reverse.mp hv)
  | cons g gs ih => exact ih h.close

theorem wellFormed_of_mem_assemble (h : Gathered gs inner) :
    ∀ v ∈ assemble gs inner ts, v.WellFormed := by
  induction ts generalizing gs inner with
  | nil => exact wellFormed_of_mem_closeAll h
  | cons t ts ih =>
      cases ended : t.isEof with
      | true =>
          rw [assemble_of_isEof ended]
          exact wellFormed_of_mem_closeAll h
      | false =>
        cases opened : GroupHead.ofToken? t with
        | some head =>
            have opens := GroupHead.opens_of_ofToken? opened
            rw [← GroupHead.opener_of_ofToken? opened, assemble_opener opens]
            exact ih ⟨opens, by simp, h⟩
        | none =>
          by_cases stays : StaysIn gs (.token t)
          · rw [assemble_token ended opened stays]
            exact ih (h.cons (.token ended opened) stays)
          · obtain ⟨g, hg, closes⟩ : ∃ g ∈ gs.head?, t = g.head.closer := by
              simpa [StaysIn] using stays
            obtain ⟨gs, rfl⟩ : ∃ outer, gs = g :: outer := List.head?_eq_some_iff.mp hg
            rw [closes, assemble_closer]
            exact ih h.close

theorem wellFormed_of_mem_ofTokens : ∀ v ∈ ofTokens ts, v.WellFormed :=
  wellFormed_of_mem_assemble (by simp [Gathered])

end Value

end CssSieve
