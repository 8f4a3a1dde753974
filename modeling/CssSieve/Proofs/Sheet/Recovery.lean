import CssSieve.Proofs.Sheet.Reading

/-!
# Declarations are read apart

A semicolon ends whatever stands before it, sound or broken: it completes what the end of the list
would complete and brings the reader back to `between`. So the two sides of a semicolon are read as
lists of their own, and a whole list is read stretch by stretch.
-/

namespace CssSieve

/-- Whether the value ends a declaration. -/
def Value.isSemicolon (v : Value) : Bool := v == .token .semicolon

namespace DeclarationReader

variable {name : String} {v : Value} {vs : List Value}

/-- A semicolon does what the end of the list does, and the reader starts afresh behind it. -/
theorem step_semicolon (r : DeclarationReader) :
    r.step (.token .semicolon) = (between, r.finish) := by
  cases r <;> rfl

/-- Wherever the reader stands, it reads what is in front of a semicolon as if nothing followed. -/
theorem run_append_semicolon (r : DeclarationReader) (xs ys : List Value) :
    r.run (xs ++ .token .semicolon :: ys) = r.run xs ++ between.run ys := by
  induction xs generalizing r with
  | nil => simp only [List.nil_append, run, step_semicolon]
  | cons v xs ih => rw [List.cons_append, run, run, ih, List.append_assoc]

/-! ## Stretches without semicolons -/

theorem stepInValue_of_ne (closed : v ≠ .token .semicolon) (value : List Value) :
    stepInValue name value v = (inValue name (v :: value), none) := by
  unfold stepInValue
  split
  next => exact absurd rfl closed
  next => rfl

end DeclarationReader

namespace Declaration

open DeclarationReader

/-- **Errors stay where they are.** However broken the values on one side of a semicolon are, they
take nothing from the declarations on its other side. -/
theorem listOfValues_append_semicolon (xs ys : List Value) :
    listOfValues (xs ++ [.token .semicolon] ++ ys) = listOfValues xs ++ listOfValues ys := by
  rw [List.append_assoc, List.singleton_append]
  exact run_append_semicolon between xs ys

/-- The nameless declaration and the stray values cost their neighbours nothing. -/
example : (listOfValues
    [.token .colon, .token (.ident "red"), .token .semicolon, .token (.ident "color"),
      .token .colon, .token (.ident "red"), .token .semicolon, .token (.ident "width")]) =
    [⟨"color", [.token (.ident "red")], false⟩] := by
  decide +kernel

/-- A list is read stretch by stretch. -/
theorem listOfValues_eq_flatMap (vs : List Value) :
    listOfValues vs = (vs.splitOnP Value.isSemicolon).flatMap listOfValues := by
  -- by induction on the number of values, one stretch after the other
  induction counted : vs.length using Nat.strongRecOn generalizing vs with
  | _ n ih =>
    cases found : vs.find? Value.isSemicolon with
    | none =>
        have alone : vs.splitOnP Value.isSemicolon = [vs] :=
          List.splitOnP_eq_singleton (by simpa using found)
        rw [alone, List.flatMap_singleton]
    | some c =>
        obtain ⟨closes, xs, ys, rfl, before⟩ := List.find?_eq_some_iff_append.mp found
        obtain rfl : c = .token .semicolon := eq_of_beq closes
        have split := List.splitOnP_append_cons_of_forall_mem (by simpa using before) _ closes ys
        have shorter : ys.length < n := by
          rw [← counted, List.length_append, List.length_cons]
          omega
        calc listOfValues (xs ++ .token .semicolon :: ys)
          _ = listOfValues xs ++ listOfValues ys := run_append_semicolon between xs ys
          _ = listOfValues xs ++ (ys.splitOnP Value.isSemicolon).flatMap listOfValues := by
              rw [ih _ shorter ys rfl]
          _ = _ := by rw [split, List.flatMap_cons]

end Declaration

end CssSieve
