/-!
# Loops

A loop is given by what one turn does to its state, or that there is no further turn. No number of
turns is given in advance, so that a loop ends at all has to be proved: something has to go down at
every turn (`exists_finishes`).
-/

namespace CssSieve

variable {σ : Type} {turn : σ → Option σ}

/-- From one state to another in a number of turns. -/
inductive Turns (turn : σ → Option σ) : Nat → σ → σ → Prop
  | refl (s : σ) : Turns turn 0 s s
  | head {n : Nat} {s t u : σ} : turn s = some t → Turns turn n t u → Turns turn (n + 1) s u

/-- The loop takes a number of turns, and then there is no further one. -/
def Finishes (turn : σ → Option σ) (n : Nat) (first last : σ) : Prop :=
  Turns turn n first last ∧ turn last = none

theorem Turns.single {s t : σ} (h : turn s = some t) : Turns turn 1 s t := .head h (.refl t)

theorem Turns.trans {n k : Nat} {s t u : σ} (first : Turns turn n s t) (second : Turns turn k t u) :
    Turns turn (k + n) s u := by
  induction first with
  | refl s => exact second
  | head step _ ih => exact .head step (ih second)

/-- Where there is no further turn, none is taken. -/
theorem Turns.eq_of_ended {n : Nat} {s t : σ} (h : Turns turn n s t) (ended : turn s = none) :
    t = s := by
  cases h with
  | refl => rfl
  | head step _ => rw [ended] at step; cases step

/-- What every turn preserves holds at the end. -/
theorem Turns.preserves {Inv : σ → Prop} (step : ∀ {s t}, Inv s → turn s = some t → Inv t)
    {n : Nat} {s t : σ} (h : Turns turn n s t) (start : Inv s) : Inv t := by
  induction h with
  | refl s => exact start
  | head one _ ih => exact ih (step start one)

/-- If every turn brings a measure down while something stays true, the loop ends, after no more
turns than the measure says, and it is still true at the end. -/
theorem exists_finishes {Inv : σ → Prop} {measure : σ → Nat}
    (step : ∀ {s t}, Inv s → turn s = some t → Inv t ∧ measure t < measure s) {s : σ}
    (start : Inv s) : ∃ n last, n ≤ measure s ∧ Finishes turn n s last ∧ Inv last := by
  induction bound : measure s using Nat.strongRecOn generalizing s with
  | _ k ih =>
    cases next : turn s with
    | none => exact ⟨0, s, Nat.zero_le k, ⟨.refl s, next⟩, start⟩
    | some t =>
        obtain ⟨kept, down⟩ := step start next
        rw [bound] at down
        obtain ⟨n, last, few, ⟨turns, ended⟩, holds⟩ := ih _ down kept rfl
        exact ⟨n + 1, last, by omega, ⟨.head next turns, ended⟩, holds⟩

end CssSieve
