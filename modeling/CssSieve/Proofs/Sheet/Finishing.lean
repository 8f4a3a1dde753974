import CssSieve.Proofs.Loop
import CssSieve.Proofs.Sheet.Resuming
import CssSieve.Proofs.Sheet.RoundTrip

/-!
# Reading in turns

The readers of rules and declarations look at one value at a time, so they end by their form. Here
the same lists are read by loops that nothing bounds from outside: where a loop stands is what is
left of the values, and each turn takes as many of them as make up the rule or the declaration that
begins there, however broken it is. Every turn takes one value at least and the loop is over only
when none is left, so it ends, and it reads what the reader reads (`rules_read_in_turns`,
`declarations_read_in_turns`).
-/

namespace CssSieve

/-- One turn of a loop that reads values: what it reads, if anything, and what is left then. -/
abbrev ReadingTurn (α : Type) := List Value → Option (Option α × List Value)

namespace ReadingTurn

variable {α : Type}

/-- The turn, with all that has been read so far. -/
def loop (turn : ReadingTurn α) : List α × List Value → Option (List α × List Value)
  | (before, vs) => (turn vs).map fun taken => (before ++ taken.1.toList, taken.2)

/-- Turn by turn a list is read to its end. -/
structure ReadsAll (turn : ReadingTurn α) (read : List Value → List α) : Prop where
  /-- Every turn takes values away. -/
  advances : ∀ {vs one rest}, turn vs = some (one, rest) → ∃ taken ≠ [], taken ++ rest = vs
  /-- There is a further turn as long as values are left. -/
  ended : ∀ {vs}, turn vs = none ↔ vs = []
  /-- The loop ends with nothing left. -/
  finishes : ∀ vs, ∃ turns ≤ vs.length, Finishes turn.loop turns ([], vs) (read vs, [])
  /-- Begun again where it ended, the loop takes no turn and reads nothing. -/
  again : ∀ {vs turns all rest}, Finishes turn.loop turns ([], vs) (all, rest) →
    Finishes turn.loop 0 ([], rest) ([], [])

/-- Every turn takes a value at least, and reads what the list begins with. -/
structure ReadsFirst (turn : ReadingTurn α) (read : List Value → List α) : Prop where
  nothing_left : turn [] = none
  nothing_read : read [] = []
  reads : ∀ v vs, ∃ one rest, turn (v :: vs) = some (one, rest) ∧ rest <:+ vs ∧
    read (v :: vs) = one.toList ++ read rest

namespace ReadsFirst

variable {turn : ReadingTurn α} {read : List Value → List α} (h : turn.ReadsFirst read)
variable {vs rest : List Value} {one : Option α}
include h

theorem ended : turn vs = none ↔ vs = [] := by
  cases vs with
  | nil => simp [h.nothing_left]
  | cons v vs =>
      obtain ⟨one, rest, goes, -⟩ := h.reads v vs
      simp [goes]

theorem advances (taken : turn vs = some (one, rest)) :
    (∃ taken ≠ [], taken ++ rest = vs) ∧ read vs = one.toList ++ read rest := by
  cases vs with
  | nil =>
      rw [h.nothing_left] at taken
      cases taken
  | cons v vs =>
      obtain ⟨one', rest', goes, ⟨behind, rfl⟩, whole⟩ := h.reads v vs
      rw [goes] at taken
      cases taken
      exact ⟨⟨v :: behind, List.cons_ne_nil v behind, rfl⟩, whole⟩

/-- What has been read and what is left to be read stay the same together. -/
theorem loop_step {s t : List α × List Value} (step : turn.loop s = some t) :
    t.1 ++ read t.2 = s.1 ++ read s.2 ∧ t.2.length < s.2.length := by
  obtain ⟨before, vs⟩ := s
  obtain ⟨⟨one, rest⟩, goes, rfl⟩ := Option.map_eq_some_iff.mp step
  obtain ⟨⟨taken, some_taken, rfl⟩, whole⟩ := h.advances goes
  constructor
  · rw [whole, List.append_assoc]
  · rw [List.length_append]
    exact Nat.lt_add_of_pos_left (List.length_pos_iff.mpr some_taken)

theorem loop_ended {before : List α} (ended : turn.loop (before, vs) = none) : vs = [] :=
  h.ended.mp (Option.map_eq_none_iff.mp ended)

theorem readsAll : turn.ReadsAll read := by
  refine ⟨fun goes => (h.advances goes).1, h.ended, fun vs => ?_, fun ends => ?_⟩
  -- at every turn, what has been read and what is left to be read make up the whole
  · have step : ∀ {s t : List α × List Value}, s.1 ++ read s.2 = read vs →
        turn.loop s = some t → t.1 ++ read t.2 = read vs ∧ t.2.length < s.2.length := by
      intro s t whole goes
      obtain ⟨same, fewer⟩ := h.loop_step goes
      exact ⟨same.trans whole, fewer⟩
    obtain ⟨turns, ⟨after, rest⟩, few, ends, whole⟩ :=
      exists_finishes (s := ([], vs)) step (List.nil_append _)
    obtain rfl := h.loop_ended ends.2
    obtain rfl : after = read vs := by simpa [h.nothing_read] using whole
    exact ⟨turns, few, ends⟩
  · obtain rfl := h.loop_ended ends.2
    exact ⟨.refl _, Option.map_eq_none_iff.mpr h.nothing_left⟩

end ReadsFirst

end ReadingTurn

/-! ## Rules -/

namespace RuleReader

variable {topLevel : Bool} {name : String} {prelude : List Value}

/-- The at-rule with a name and what has been taken of its prelude, last value first, and what is
left behind it. -/
def takeAtRule (name : String) : (prelude : List Value) → List Value → Rule × List Value
  | prelude, [] => (atRule name prelude .absent, [])
  | prelude, .token .semicolon :: vs => (atRule name prelude .absent, vs)
  | prelude, .block '\x7b' contents :: vs => (atRule name prelude (.raw contents), vs)
  | prelude, v :: vs => takeAtRule name (v :: prelude) vs

/-- The style rule with what has been taken of its prelude, last value first, and what is left
behind it. -/
def takeStyleRule : (prelude : List Value) → List Value → Option Rule × List Value
  | _, [] => (none, [])
  | prelude, .block '\x7b' contents :: vs => (some (styleRule prelude contents), vs)
  | prelude, v :: vs => takeStyleRule (v :: prelude) vs

/-- One turn of the loop over rules. -/
def turn (topLevel : Bool) : ReadingTurn Rule
  | [] => none
  | v :: vs =>
    if v.startsStyleRule topLevel then some (takeStyleRule [] (v :: vs))
    else
      match v with
      | .token (.atKeyword name) => some ((takeAtRule name [] vs).map some id)
      | _ => some (none, vs)

theorem takeAtRule_suffix (name : String) (prelude vs : List Value) :
    (takeAtRule name prelude vs).2 <:+ vs := by
  fun_induction takeAtRule name prelude vs with
  | case1 => exact List.suffix_rfl
  | case2 | case3 => exact List.suffix_cons _ _
  | case4 prelude v vs _ _ ih => exact ih.trans (List.suffix_cons v vs)

theorem takeStyleRule_suffix (prelude vs : List Value) :
    (takeStyleRule prelude vs).2 <:+ vs := by
  fun_induction takeStyleRule prelude vs with
  | case1 => exact List.suffix_rfl
  | case2 => exact List.suffix_cons _ _
  | case3 prelude v vs _ ih => exact ih.trans (List.suffix_cons v vs)

theorem run_takeAtRule (name : String) (prelude vs : List Value) :
    (inAtRule name prelude).run topLevel vs =
      (takeAtRule name prelude vs).1 :: between.run topLevel (takeAtRule name prelude vs).2 := by
  fun_induction takeAtRule name prelude vs with
  | case1 => rfl
  | case2 => rfl
  | case3 => rfl
  | case4 prelude v vs closed other ih =>
      have next : (inAtRule name prelude).step topLevel v = (inAtRule name (v :: prelude), none) :=
        stepInAtRule_of_open (Value.isBraces_eq_false other) closed name prelude
      rw [run, next]
      exact ih

theorem run_takeStyleRule (prelude vs : List Value) :
    (inStyleRule prelude).run topLevel vs =
      (takeStyleRule prelude vs).1.toList ++
        between.run topLevel (takeStyleRule prelude vs).2 := by
  fun_induction takeStyleRule prelude vs with
  | case1 => rfl
  | case2 => rfl
  | case3 prelude v vs other ih =>
      have next : (inStyleRule prelude).step topLevel v = (inStyleRule (v :: prelude), none) :=
        stepInStyleRule_of_unbraced (Value.isBraces_eq_false other) prelude
      rw [run, next]
      exact ih

/-- A value that starts a style rule is read as the first of its prelude. -/
theorem run_between_of_starts {v : Value} (starts : v.startsStyleRule topLevel = true)
    (vs : List Value) :
    between.run topLevel (v :: vs) = (inStyleRule []).run topLevel (v :: vs) := by
  rw [run, run]
  show (stepBetween topLevel v).2.toList ++ run topLevel (stepBetween topLevel v).1 vs = _
  rw [stepBetween_of_starts starts]
  rfl

/-- The first value is taken, whatever it is. -/
theorem takeStyleRule_cons_suffix (v : Value) (vs : List Value) :
    (takeStyleRule [] (v :: vs)).2 <:+ vs := by
  cases braced : v.isBraces with
  | true =>
      obtain ⟨contents, rfl⟩ := Value.exists_of_isBraces braced
      exact List.suffix_rfl
  | false =>
      have next : takeStyleRule [] (v :: vs) = takeStyleRule [v] vs := by
        rw [takeStyleRule]
        rintro contents rfl
        cases braced
      rw [next]
      exact takeStyleRule_suffix [v] vs

/-- **Rules are read in turns to the end of the list.** -/
theorem rules_read_in_turns (topLevel : Bool) :
    (turn topLevel).ReadsAll (between.run topLevel) := by
  refine ReadingTurn.ReadsFirst.readsAll ⟨rfl, rfl, fun v vs => ?_⟩
  cases starts : v.startsStyleRule topLevel with
  | true =>
      have goes : turn topLevel (v :: vs) = some (takeStyleRule [] (v :: vs)) := if_pos starts
      refine ⟨_, _, goes, takeStyleRule_cons_suffix v vs, ?_⟩
      rw [run_between_of_starts starts, run_takeStyleRule]
  | false =>
      unfold Value.startsStyleRule at starts
      split at starts
      next => exact ⟨none, vs, rfl, List.suffix_rfl, rfl⟩
      next name => exact ⟨_, _, rfl, takeAtRule_suffix name [] vs, run_takeAtRule name [] vs⟩
      next =>
        obtain rfl : topLevel = true := by simpa using starts
        exact ⟨none, vs, rfl, List.suffix_rfl, rfl⟩
      next =>
        obtain rfl : topLevel = true := by simpa using starts
        exact ⟨none, vs, rfl, List.suffix_rfl, rfl⟩
      next => cases starts

end RuleReader

/-! ## Declarations -/

/-- What is left from the next semicolon on. -/
def Value.fromSemicolon (vs : List Value) : List Value := vs.dropWhile fun v => !v.isSemicolon

namespace DeclarationReader

open Value (fromSemicolon)

/-- The declaration with a name, if a colon follows, and what is left from its semicolon on. -/
def takeDeclaration (name : String) (vs : List Value) : Option Declaration × List Value :=
  match vs.dropWhile Value.isWhitespace with
  | .token .colon :: us =>
    let us := us.dropWhile Value.isWhitespace
    (some (declare name (us.takeWhile fun v => !v.isSemicolon).reverse), fromSemicolon us)
  | us => (none, fromSemicolon us)

/-- One turn of the loop over declarations. -/
def turn : ReadingTurn Declaration
  | [] => none
  | v :: vs =>
    match v with
    | .token .whitespace | .token .semicolon => some (none, vs)
    | .token (.atKeyword name) => some (none, (RuleReader.takeAtRule name [] vs).2)
    | .token (.ident name) => some (takeDeclaration name vs)
    | _ => some (none, fromSemicolon vs)

theorem fromSemicolon_suffix (vs : List Value) : fromSemicolon vs <:+ vs := List.dropWhile_suffix _

theorem ends_fromSemicolon (vs : List Value) :
    ∀ v ∈ (fromSemicolon vs).head?, v = .token .semicolon := by
  intro v hv
  have ends := List.head?_dropWhile_not (fun v => !v.isSemicolon) vs
  rw [← fromSemicolon, hv] at ends
  have closes : v.isSemicolon = true := by simpa using ends
  exact eq_of_beq closes

/-- The semicolon that is left is passed over. -/
theorem run_fromSemicolon (vs : List Value) :
    between.run (fromSemicolon vs) = between.run (fromSemicolon vs).tail := by
  have ends := ends_fromSemicolon vs
  cases left : fromSemicolon vs with
  | nil => rfl
  | cons v us =>
      rw [left] at ends
      obtain rfl := ends v rfl
      rfl

theorem takeDeclaration_suffix (name : String) (vs : List Value) :
    (takeDeclaration name vs).2 <:+ vs := by
  have white : vs.dropWhile Value.isWhitespace <:+ vs := List.dropWhile_suffix _
  unfold takeDeclaration
  split
  next us opened =>
    rw [opened] at white
    have behind : us <:+ vs := (List.suffix_cons _ us).trans white
    exact (fromSemicolon_suffix _).trans ((List.dropWhile_suffix _).trans behind)
  next => exact (fromSemicolon_suffix _).trans white

/-! ### The reader reads what is taken -/

theorem run_skipping (vs : List Value) : skipping.run vs = between.run (fromSemicolon vs) := by
  induction vs with
  | nil => rfl
  | cons v vs ih =>
      cases ends : v.isSemicolon with
      | true =>
          obtain rfl : v = .token .semicolon := eq_of_beq ends
          rfl
      | false =>
          have next : skipping.step v = (skipping, none) := by
            show stepSkipping v = _
            unfold stepSkipping
            split
            next => cases ends
            next => rfl
          rw [run, next, fromSemicolon, List.dropWhile_cons_of_pos (by simp [ends])]
          exact ih

/-- An at-rule is passed over in the same way in which it is taken among rules. -/
theorem run_takeAtRule (name : String) (prelude vs : List Value) :
    inAtRule.run vs = between.run (RuleReader.takeAtRule name prelude vs).2 := by
  fun_induction RuleReader.takeAtRule name prelude vs with
  | case1 => rfl
  | case2 => rfl
  | case3 => rfl
  | case4 prelude v vs closed other ih =>
      have next : inAtRule.step v = (inAtRule, none) := by
        show stepInAtRule v = _
        unfold stepInAtRule
        split
        next => exact absurd rfl closed
        next contents => exact absurd rfl (other contents)
        next => rfl
      rw [run, next]
      exact ih

/-- White space between a name and its colon is passed over. -/
theorem run_afterName_dropWhile (name : String) (vs : List Value) :
    (afterName name).run (vs.dropWhile Value.isWhitespace) = (afterName name).run vs := by
  induction vs with
  | nil => rfl
  | cons v vs ih =>
      cases dark : v.isWhitespace with
      | true =>
          obtain rfl := Value.isWhitespace_iff.mp dark
          exact ih
      | false => rw [List.dropWhile_cons_of_neg (by simp [dark])]

/-- Behind white space, the value begins. -/
theorem run_inValue_dropWhile (name : String) (vs : List Value) :
    (inValue name []).run (vs.dropWhile Value.isWhitespace) = (afterColon name).run vs := by
  induction vs with
  | nil => rfl
  | cons v vs ih =>
      cases dark : v.isWhitespace with
      | true =>
          obtain rfl := Value.isWhitespace_iff.mp dark
          exact ih
      | false =>
          have next : (afterColon name).step v = (inValue name []).step v := by
            show stepAfterColon name v = _
            unfold stepAfterColon
            split
            next => cases dark
            next => rfl
          rw [List.dropWhile_cons_of_neg (by simp [dark]), run, run, next]

theorem run_takeValue (name : String) (vs : List Value) :
    (inValue name []).run vs =
      declare name (vs.takeWhile fun v => !v.isSemicolon).reverse ::
        between.run (fromSemicolon vs) := by
  have closed : ∀ v ∈ vs.takeWhile fun v => !v.isSemicolon, v ≠ .token .semicolon := by
    rintro v hv rfl
    cases List.mem_takeWhile_imp hv
  have whole : (vs.takeWhile fun v => !v.isSemicolon) ++ fromSemicolon vs = vs :=
    List.takeWhile_append_dropWhile
  calc (inValue name []).run vs
      = (inValue name []).run ((vs.takeWhile fun v => !v.isSemicolon) ++ fromSemicolon vs) := by
        rw [whole]
    _ = declare name ((vs.takeWhile fun v => !v.isSemicolon).reverse ++ []) ::
          between.run (fromSemicolon vs).tail :=
        run_inValue closed (ends_fromSemicolon vs) []
    _ = _ := by rw [List.append_nil, ← run_fromSemicolon]

/-- A semicolon is left where it stands, and so is the next one when something is broken. -/
theorem fromSemicolon_cons {v : Value} (broken : v ≠ .token .semicolon) (vs : List Value) :
    fromSemicolon (v :: vs) = fromSemicolon vs :=
  List.dropWhile_cons_of_pos (by simpa [Value.isSemicolon] using broken)

/-- A name without a colon is broken. -/
theorem run_afterName_of_unopened {vs : List Value}
    (dark : ∀ v ∈ vs.head?, v.isWhitespace = false)
    (unopened : ∀ us, vs ≠ .token .colon :: us) :
    (afterName name).run vs = between.run (fromSemicolon vs) := by
  cases vs with
  | nil => rfl
  | cons v vs =>
      have dark : v.isWhitespace = false := dark v rfl
      by_cases ends : v = .token .semicolon
      · subst ends
        rfl
      · have next : (afterName name).step v = (skipping, none) := by
          show stepAfterName name v = _
          unfold stepAfterName
          split
          next => cases dark
          next => exact absurd rfl (unopened vs)
          next => exact absurd rfl ends
          next => rfl
        rw [run, next, fromSemicolon_cons ends]
        exact run_skipping vs

theorem run_takeDeclaration (name : String) (vs : List Value) :
    (afterName name).run vs =
      (takeDeclaration name vs).1.toList ++ between.run (takeDeclaration name vs).2 := by
  have dark : ∀ v ∈ (vs.dropWhile Value.isWhitespace).head?, v.isWhitespace = false := by
    intro v hv
    have first := List.head?_dropWhile_not Value.isWhitespace vs
    rwa [hv] at first
  rw [← run_afterName_dropWhile, takeDeclaration]
  split
  next us opened =>
    have behind : (afterName name).run (.token .colon :: us) = (afterColon name).run us := rfl
    rw [opened, behind, ← run_inValue_dropWhile, run_takeValue]
    rfl
  next unopened => exact run_afterName_of_unopened dark unopened

theorem stepBetween_of_broken {v : Value} (white : v ≠ .token .whitespace)
    (semicolon : v ≠ .token .semicolon) (keyword : ∀ name, v ≠ .token (.atKeyword name))
    (ident : ∀ name, v ≠ .token (.ident name)) : stepBetween v = (skipping, none) := by
  unfold stepBetween
  split
  next => exact absurd rfl white
  next => exact absurd rfl semicolon
  next name => exact absurd rfl (keyword name)
  next name => exact absurd rfl (ident name)
  next => rfl

/-- **Declarations are read in turns to the end of the list.** -/
theorem declarations_read_in_turns : turn.ReadsAll Declaration.listOfValues := by
  refine ReadingTurn.ReadsFirst.readsAll ⟨rfl, rfl, fun v vs => ?_⟩
  rw [turn.eq_def]
  dsimp only
  split
  next => exact ⟨none, vs, rfl, List.suffix_rfl, rfl⟩
  next => exact ⟨none, vs, rfl, List.suffix_rfl, rfl⟩
  next name =>
    exact ⟨none, _, rfl, RuleReader.takeAtRule_suffix name [] vs, run_takeAtRule name [] vs⟩
  next name => exact ⟨_, _, rfl, takeDeclaration_suffix name vs, run_takeDeclaration name vs⟩
  next white semicolon keyword ident =>
    have next : between.step v = (skipping, none) :=
      stepBetween_of_broken white semicolon keyword ident
    refine ⟨none, _, rfl, fromSemicolon_suffix vs, ?_⟩
    show between.run (v :: vs) = between.run (fromSemicolon vs)
    rw [run, next]
    exact run_skipping vs

end DeclarationReader

end CssSieve
