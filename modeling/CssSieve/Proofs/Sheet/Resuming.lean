import CssSieve.Proofs.Sheet.Reading

/-!
# Rules are read apart

A block in braces ends the rule that it belongs to, whatever kind of rule that is and whatever its
prelude holds: it completes exactly one rule and brings the reader back to `between`. So what stands
behind such a block is read as a list of its own, and no block in braces is lost.
-/

namespace CssSieve

/-- Whether the rule ends with a block. -/
def Rule.hasBlock : Rule → Bool
  | .at ⟨_, _, .absent⟩ => false
  | _ => true

theorem Value.exists_of_isBraces {v : Value} (braces : v.isBraces = true) :
    ∃ contents, v = .block '\x7b' contents := by
  unfold isBraces at braces
  split at braces
  next contents => exact ⟨contents, rfl⟩
  next => cases braces

namespace RuleReader

variable {topLevel : Bool}

/-- The rule that a block in braces completes where the reader stands. -/
def close : RuleReader → List Value → Rule
  | between, contents => styleRule [] contents
  | inAtRule name prelude, contents => atRule name prelude (.raw contents)
  | inStyleRule prelude, contents => styleRule prelude contents

/-- Wherever the reader stands, a block in braces completes a rule, and the reader starts afresh
behind it. -/
theorem step_braces (r : RuleReader) (contents : List Value) :
    r.step topLevel (.block '\x7b' contents) = (between, some (r.close contents)) := by
  cases r <;> rfl

theorem run_braces (r : RuleReader) (contents ys : List Value) :
    r.run topLevel (.block '\x7b' contents :: ys) =
      r.close contents :: between.run topLevel ys := by
  rw [run, step_braces]
  rfl

/-- The reader reads what stands in front of a block in braces, with the block, as if nothing
followed. -/
theorem run_append_braces (r : RuleReader) (xs contents ys : List Value) :
    r.run topLevel (xs ++ .block '\x7b' contents :: ys) =
      r.run topLevel (xs ++ [.block '\x7b' contents]) ++ between.run topLevel ys := by
  induction xs generalizing r with
  | nil =>
      rw [List.nil_append, List.nil_append, run_braces, run_braces]
      rfl
  | cons v xs ih => rw [List.cons_append, run, ih, List.cons_append, run, List.append_assoc]

/-- Behind a block in braces, or at the start, the next block has no prelude. -/
theorem run_append_braces_of_closed {xs : List Value} (closed : ∀ v ∈ xs.getLast?, v.isBraces)
    (contents : List Value) :
    between.run topLevel (xs ++ [.block '\x7b' contents]) =
      between.run topLevel xs ++ [.style ⟨[], Declaration.listOfValues contents⟩] := by
  have alone : between.run topLevel [.block '\x7b' contents] =
      [.style ⟨[], Declaration.listOfValues contents⟩] := run_braces between contents []
  rcases xs.eq_nil_or_concat with rfl | ⟨us, b, rfl⟩
  · exact alone
  · rw [List.concat_eq_append] at closed ⊢
    obtain ⟨inner, rfl⟩ := Value.exists_of_isBraces (closed b (by simp))
    rw [List.append_assoc, List.singleton_append, run_append_braces, alone]

/-- **Broken rules stay where they are.** Behind a block in braces the rules are those of what
follows, however broken the values in front of it are. A block that nothing stands in front of, or
another block, adds exactly one rule, which has no prelude. -/
theorem run_around_braces (topLevel : Bool) (xs ys contents : List Value) :
    between.run topLevel (xs ++ [.block '\x7b' contents] ++ ys) =
        between.run topLevel (xs ++ [.block '\x7b' contents]) ++ between.run topLevel ys ∧
      ((∀ v ∈ xs.getLast?, v.isBraces) →
        between.run topLevel (xs ++ [.block '\x7b' contents]) =
          between.run topLevel xs ++ [.style ⟨[], Declaration.listOfValues contents⟩]) := by
  constructor
  · rw [List.append_assoc, List.singleton_append]
    exact run_append_braces between xs contents ys
  · intro closed
    exact run_append_braces_of_closed closed contents

/-- A block that belongs to an at-rule, and one that belongs to nothing. -/
theorem run_around_braces_second_block :
    let xs : List Value := [.token (.atKeyword "page"), .token .cdc, .block '\x7b' []]
    let contents : List Value := [.token (.ident "color"), .token .colon, .token (.ident "red")]
    (∀ v ∈ xs.getLast?, v.isBraces) ∧
      between.run true (xs ++ [.block '\x7b' contents]) =
        between.run true xs ++ [.style ⟨[], [⟨"color", [.token (.ident "red")], false⟩]⟩] := by
  intro xs contents
  have closed : ∀ v ∈ xs.getLast?, v.isBraces := by decide
  have read : Declaration.listOfValues contents = [⟨"color", [.token (.ident "red")], false⟩] := by
    decide +kernel
  refine ⟨closed, ?_⟩
  rw [(run_around_braces true xs [] contents).2 closed, read]

/-! ## No block is lost -/

theorem hasBlock_close (r : RuleReader) (contents : List Value) :
    (r.close contents).hasBlock = true := by
  cases r <;> rfl

/-- A value of another kind may complete a rule, but none with a block. -/
theorem countP_hasBlock_step_of_unbraced {v : Value} (unbraced : v.isBraces = false)
    (r : RuleReader) : (r.step topLevel v).2.toList.countP Rule.hasBlock = 0 := by
  cases r with
  | between =>
      show (stepBetween topLevel v).2.toList.countP Rule.hasBlock = 0
      cases starts : v.startsStyleRule topLevel with
      | true =>
          rw [stepBetween_of_starts starts, stepInStyleRule_of_unbraced unbraced]
          rfl
      | false =>
          rw [(stepBetween_of_not_starts starts).1]
          rfl
  | inStyleRule prelude =>
      show (stepInStyleRule prelude v).2.toList.countP Rule.hasBlock = 0
      rw [stepInStyleRule_of_unbraced unbraced]
      rfl
  | inAtRule name prelude =>
      show (stepInAtRule name prelude v).2.toList.countP Rule.hasBlock = 0
      unfold stepInAtRule
      split
      next => rfl
      next => cases unbraced
      next => rfl

theorem countP_hasBlock_step (r : RuleReader) (v : Value) :
    (r.step topLevel v).2.toList.countP Rule.hasBlock = if v.isBraces then 1 else 0 := by
  cases braces : v.isBraces with
  | true =>
      obtain ⟨contents, rfl⟩ := Value.exists_of_isBraces braces
      simp [step_braces, hasBlock_close]
  | false => exact countP_hasBlock_step_of_unbraced braces r

/-- As many rules with blocks are read as there are blocks in braces. -/
theorem countP_hasBlock_run (r : RuleReader) (vs : List Value) :
    (r.run topLevel vs).countP Rule.hasBlock = vs.countP Value.isBraces := by
  induction vs generalizing r with
  | nil => cases r <;> rfl
  | cons v vs ih =>
      rw [run, List.countP_append, countP_hasBlock_step, ih, List.countP_cons, Nat.add_comm]

end RuleReader

end CssSieve
