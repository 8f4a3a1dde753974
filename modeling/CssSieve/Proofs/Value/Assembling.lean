import CssSieve.Proofs.Value.Flattening

/-!
# What assembly keeps

Assembly neither loses a token nor makes one up: its values, written back, are the tokens up to the
end of the input, and behind them only what closes the groups that were still open. On well-formed
values assembly and writing are inverse to each other, and assembly gives no other values.
-/

namespace CssSieve

/-! ## Closing tokens -/

namespace Token

/-- The token that closes the group which a token opens. -/
def mirror? : Token → Option Token
  | function _ | leftParen => some rightParen
  | leftBracket => some rightBracket
  | leftBrace => some rightBrace
  | _ => none

/-- The closing tokens that are due behind a token, that of the innermost open group first. A
closing token takes away the first of them if it is that one, and nothing otherwise. -/
def dueAfter (due : List Token) (t : Token) : List Token :=
  match t.mirror? with
  | some closing => closing :: due
  | none => if due.head? = some t then due.tail else due

/-- The closing tokens that are due behind a list of tokens. -/
def due (ts : List Token) : List Token := ts.foldl dueAfter []

/-- The tokens before the first end of the input. -/
def beforeEof (ts : List Token) : List Token := ts.takeWhile (!·.isEof)

theorem mirror?_eq (t : Token) : t.mirror? = (GroupHead.ofToken? t).map GroupHead.closer := by
  cases t <;> rfl

theorem beforeEof_of_isEof {t : Token} (h : t.isEof = true) (ts : List Token) :
    beforeEof (t :: ts) = [] := by
  simp [beforeEof, h]

theorem beforeEof_cons {t : Token} (h : t.isEof = false) (ts : List Token) :
    beforeEof (t :: ts) = t :: beforeEof ts := by
  simp [beforeEof, h]

end Token

open Token (due dueAfter beforeEof)

namespace Value

/-! ## Tokens written of unfinished values -/

variable {gs : List OpenGroup} {inner : List Value}

/-- The tokens of what has been read, with the groups of a stack still open. -/
def written : List OpenGroup → List Value → List Token
  | [], inner => tokensAll inner.reverse
  | g :: gs, inner => written gs g.before ++ g.head.opener :: tokensAll inner.reverse

/-- The tokens that close the groups of a stack, innermost first. -/
def closers (gs : List OpenGroup) : List Token := gs.map (·.head.closer)

theorem written_cons (gs : List OpenGroup) (v : Value) (inner : List Value) :
    written gs (v :: inner) = written gs inner ++ v.tokens := by
  have behind : tokensAll (v :: inner).reverse = tokensAll inner.reverse ++ v.tokens := by
    rw [List.reverse_cons, tokensAll_append, tokensAll, tokensAll, List.append_nil]
  cases gs with
  | nil => exact behind
  | cons g gs => rw [written, behind, written, List.append_assoc, List.cons_append]

theorem written_opener (gs : List OpenGroup) (head : GroupHead) (inner : List Value) :
    written (⟨head, inner⟩ :: gs) [] = written gs inner ++ [head.opener] := rfl

/-- Closing a group writes its closing token. -/
theorem written_closer (gs : List OpenGroup) (g : OpenGroup) (inner : List Value) :
    written gs (g.head.wrap inner.reverse :: g.before) =
      written (g :: gs) inner ++ [g.head.closer] := by
  rw [written_cons, tokens_wrap, written, List.append_assoc, List.cons_append]

theorem tokensAll_closeAll (gs : List OpenGroup) (inner : List Value) :
    tokensAll (closeAll gs inner) = written gs inner ++ closers gs := by
  induction gs generalizing inner with
  | nil => exact (List.append_nil _).symm
  | cons g gs ih =>
      rw [closeAll, ih, written_closer, List.append_assoc]
      rfl

theorem dueAfter_opener {t : Token} {head : GroupHead} (h : GroupHead.ofToken? t = some head)
    (inner : List Value) : dueAfter (closers gs) t = closers (⟨head, inner⟩ :: gs) := by
  have closing : t.mirror? = some head.closer := by
    rw [Token.mirror?_eq, h, Option.map_some]
  rw [dueAfter, closing]
  rfl

theorem dueAfter_token {t : Token} (plain : GroupHead.ofToken? t = none)
    (stays : StaysIn gs (.token t)) : dueAfter (closers gs) t = closers gs := by
  have opens_none : t.mirror? = none := by
    rw [Token.mirror?_eq, plain, Option.map_none]
  have not_due : (closers gs).head? ≠ some t := by
    intro due
    cases gs with
    | nil => cases due
    | cons g gs =>
        cases due
        exact stays g rfl rfl
  rw [dueAfter, opens_none]
  exact if_neg not_due

theorem dueAfter_closer (g : OpenGroup) (gs : List OpenGroup) :
    dueAfter (closers (g :: gs)) g.head.closer = closers gs := by
  have opens_none : g.head.closer.mirror? = none := by
    rw [Token.mirror?_eq, GroupHead.ofToken?_closer, Option.map_none]
  rw [dueAfter, opens_none]
  exact if_pos rfl

/-- The tokens read inside open groups and those still to be read, and behind them what closes the
groups that are open at the end. -/
def account (gs : List OpenGroup) (inner : List Value) (ts : List Token) : List Token :=
  written gs inner ++ (beforeEof ts ++ (beforeEof ts).foldl dueAfter (closers gs))

/-- A step that writes its token and leaves what is due behind it keeps the account. -/
theorem account_step {t : Token} {hs : List OpenGroup} {now : List Value}
    (inside : t.isEof = false) (wrote : written hs now = written gs inner ++ [t])
    (left : dueAfter (closers gs) t = closers hs) (ts : List Token) :
    account hs now ts = account gs inner (t :: ts) := by
  rw [account, account, Token.beforeEof_cons inside, List.foldl_cons, left, wrote]
  simp only [List.append_assoc, List.cons_append, List.nil_append]

theorem tokensAll_assemble (gs : List OpenGroup) (inner : List Value) (ts : List Token) :
    tokensAll (assemble gs inner ts) = account gs inner ts := by
  induction ts generalizing gs inner with
  | nil => exact tokensAll_closeAll gs inner
  | cons t ts ih =>
      cases ended : t.isEof with
      | true =>
          rw [assemble_of_isEof ended, tokensAll_closeAll, account, Token.beforeEof_of_isEof ended]
          rfl
      | false =>
        cases opened : GroupHead.ofToken? t with
        | some head =>
            have same : head.opener = t := GroupHead.opener_of_ofToken? opened
            have read : assemble gs inner (t :: ts) = assemble (⟨head, inner⟩ :: gs) [] ts := by
              rw [← same]
              exact assemble_opener (GroupHead.opens_of_ofToken? opened)
            have wrote : written (⟨head, inner⟩ :: gs) [] = written gs inner ++ [t] := by
              rw [written_opener, same]
            rw [read, ih]
            exact account_step ended wrote (dueAfter_opener opened inner) ts
        | none =>
          by_cases stays : StaysIn gs (.token t)
          · rw [assemble_token ended opened stays, ih]
            exact account_step ended (written_cons gs _ inner) (dueAfter_token opened stays) ts
          · -- what does not stay in the innermost group is the token that closes it
            obtain ⟨g, hg, closes⟩ : ∃ g ∈ gs.head?, t = g.head.closer := by
              simpa [StaysIn] using stays
            obtain ⟨outer, rfl⟩ : ∃ outer, gs = g :: outer := List.head?_eq_some_iff.mp hg
            subst closes
            rw [assemble_closer, ih]
            exact account_step ended (written_closer outer g inner) (dueAfter_closer g outer) ts

/-- **Assembly loses no token and makes none up**, but for what closes the groups that are open
when the input ends. -/
theorem tokensAll_ofTokens (ts : List Token) :
    tokensAll (ofTokens ts) = beforeEof ts ++ due (beforeEof ts) := by
  rw [ofTokens, tokensAll_assemble]
  rfl

/-! ## Well-formed values by a check -/

/-- The characters that open blocks, each with the token that closes the block. -/
def brackets : List (Char × Token) :=
  [('[', .rightBracket), ('(', .rightParen), ('\x7b', .rightBrace)]

mutual

/-- Whether a value is well-formed: no token in it ends the input or opens a group, its blocks are
in brackets, and no group holds the token that closes it. -/
def isWellFormed : Value → Bool
  | token t => !([.eof, .function, .leftBracket, .leftParen, .leftBrace].contains t.kind)
  | function _ vs => !vs.contains (.token .rightParen) && areWellFormed vs
  | block c vs =>
      brackets.any (fun bracket => bracket.1 == c && !vs.contains (.token bracket.2))
        && areWellFormed vs

/-- Whether all values of a list are well-formed. -/
def areWellFormed : List Value → Bool
  | [] => true
  | v :: vs => v.isWellFormed && areWellFormed vs

end

theorem wellFormed_token_iff {t : Token} :
    (token t).WellFormed ↔ t.isEof = false ∧ GroupHead.ofToken? t = none := by
  constructor
  · intro formed
    generalize shape : token t = v at formed
    cases formed with
    | token inside plain =>
        cases shape
        exact ⟨inside, plain⟩
    | group => exact absurd shape.symm (GroupHead.wrap_ne_token _ _ _)
  · rintro ⟨inside, plain⟩
    exact .token inside plain

theorem wellFormed_wrap_iff {head : GroupHead} {vs : List Value} :
    (head.wrap vs).WellFormed ↔
      (head.Opens ∧ .token head.closer ∉ vs) ∧ ∀ v ∈ vs, v.WellFormed := by
  constructor
  · intro formed
    generalize shape : head.wrap vs = v at formed
    cases formed with
    | token => exact absurd shape (GroupHead.wrap_ne_token _ _ _)
    | group opens inner unclosed =>
        obtain ⟨rfl, rfl⟩ := GroupHead.wrap_inj.mp shape
        exact ⟨⟨opens, fun closing => unclosed _ closing rfl⟩, inner⟩
  · rintro ⟨⟨opens, closing⟩, inner⟩
    exact .group opens inner fun v hv same => closing (same ▸ hv)

theorem opens_block_iff {c : Char} {vs : List Value} :
    (GroupHead.block c).Opens ∧ .token (GroupHead.block c).closer ∉ vs ↔
      ∃ bracket ∈ brackets, bracket.1 = c ∧ .token bracket.2 ∉ vs := by
  have opens_iff : (GroupHead.block c).Opens ↔ c ∈ brackets.map Prod.fst := by
    unfold GroupHead.Opens GroupHead.opener
    split
    next h => cases h
    next h => cases h; simp [GroupHead.ofToken?, brackets]
    next h => cases h; simp [GroupHead.ofToken?, brackets]
    next h => cases h; simp [GroupHead.ofToken?, brackets]
    next square round curly h =>
      cases h
      have other : c ∉ brackets.map Prod.fst := by
        simp only [brackets, List.map_cons, List.map_nil, List.mem_cons, List.not_mem_nil, or_false]
        rintro (rfl | rfl | rfl)
        · exact square rfl
        · exact round rfl
        · exact curly rfl
      simp [GroupHead.ofToken?, other]
  have closer_of_mem : ∀ bracket ∈ brackets, (GroupHead.block bracket.1).closer = bracket.2 := by
    simp [brackets, GroupHead.closer]
  rw [opens_iff, List.mem_map]
  constructor
  · rintro ⟨⟨bracket, listed, rfl⟩, closing⟩
    exact ⟨bracket, listed, rfl, closer_of_mem bracket listed ▸ closing⟩
  · rintro ⟨bracket, listed, rfl, closing⟩
    exact ⟨⟨bracket, listed, rfl⟩, (closer_of_mem bracket listed).symm ▸ closing⟩

mutual

theorem isWellFormed_iff : ∀ v : Value, v.isWellFormed = true ↔ v.WellFormed
  | token t => by
      rw [wellFormed_token_iff, isWellFormed]
      cases t <;> simp [Token.kind, Token.isEof, GroupHead.ofToken?]
  | function name vs => by
      have inner := areWellFormed_iff vs
      have opens : (GroupHead.function name).Opens := rfl
      rw [show function name vs = (GroupHead.function name).wrap vs from rfl, wellFormed_wrap_iff,
        ← inner]
      simp [GroupHead.wrap, isWellFormed, opens, GroupHead.closer]
  | block c vs => by
      have inner := areWellFormed_iff vs
      rw [show block c vs = (GroupHead.block c).wrap vs from rfl, wellFormed_wrap_iff, ← inner,
        opens_block_iff]
      simp [GroupHead.wrap, isWellFormed]

theorem areWellFormed_iff : ∀ vs : List Value,
    areWellFormed vs = true ↔ ∀ v ∈ vs, v.WellFormed
  | [] => by simp [areWellFormed]
  | v :: vs => by
      have first := isWellFormed_iff v
      have rest := areWellFormed_iff vs
      rw [areWellFormed, Bool.and_eq_true, first, rest, List.forall_mem_cons]

end

instance : DecidablePred WellFormed := fun v => decidable_of_iff _ v.isWellFormed_iff

/-- **Assembly and writing are inverse on well-formed values.** Assembly gives well-formed values
only, and those are the values that it reads back from their tokens. -/
theorem areWellFormed_iff_readBack :
    (∀ ts, areWellFormed (ofTokens ts) = true) ∧
      ∀ vs, areWellFormed vs = true ↔ ofTokens (tokensAll vs) = vs := by
  have given : ∀ ts, areWellFormed (ofTokens ts) = true := by
    intro ts
    exact (areWellFormed_iff _).mpr wellFormed_of_mem_ofTokens
  refine ⟨given, fun vs => ⟨?_, ?_⟩⟩
  · intro formed
    exact ofTokens_tokensAll ((areWellFormed_iff vs).mp formed)
  · intro back
    rw [← back]
    exact given (tokensAll vs)

end Value

end CssSieve
