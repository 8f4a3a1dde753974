import CssSieve.Proofs.Grammar.Finding
import CssSieve.Proofs.Grammar.Progress

/-!
# Values without their white space

`Value.unspacedAll` deletes white space from a list of values, at every depth. What lies `ahead` of
a position is what is left of the list from there on, without white space; two positions, also of
different lists, with the same ahead of them are as good as each other to whoever passes over white
space.
-/

namespace CssSieve

namespace Value

mutual

/-- The value without the white space inside. -/
def unspaced : Value → Value
  | token t => token t
  | function n vs => function n (unspacedAll vs)
  | block c vs => block c (unspacedAll vs)

/-- The list without white space, at every depth. -/
def unspacedAll : List Value → List Value
  | [] => []
  | v :: vs => if v.isWhitespace then unspacedAll vs else v.unspaced :: unspacedAll vs

end

theorem unspacedAll_cons_of_whitespace {v : Value} {vs : List Value} (h : v.isWhitespace) :
    unspacedAll (v :: vs) = unspacedAll vs := by
  rw [unspacedAll, if_pos h]

theorem unspacedAll_cons_of_not_whitespace {v : Value} {vs : List Value} (h : ¬v.isWhitespace) :
    unspacedAll (v :: vs) = v.unspaced :: unspacedAll vs := by
  rw [unspacedAll, if_neg h]

theorem eq_token_of_unspaced {v : Value} {t : Token} (h : v.unspaced = token t) : v = token t := by
  cases v with
  | token _ => exact h
  | function _ _ => cases h
  | block _ _ => cases h

/-- Values that differ in white space only are the same token, if one of them is a token. -/
theorem eq_of_unspaced_eq {v w : Value} (same : v.unspaced = w.unspaced) (h : v.token?.isSome) :
    w = v := by
  cases v with
  | token t => exact eq_token_of_unspaced same.symm
  | function _ _ => cases h
  | block _ _ => cases h

end Value

open Value (unspacedAll)

/-- What lies ahead of a position, white space left out. -/
def ahead (values : List Value) (pos : Nat) : List Value := unspacedAll (values.drop pos)

variable {values : List Value} {start pos i e : Nat} {v : Value}

theorem ahead_of_whitespace (found : values[pos]? = some v) (white : v.isWhitespace) :
    ahead values pos = ahead values (pos + 1) := by
  obtain ⟨inside, rfl⟩ := List.getElem?_eq_some_iff.mp found
  rw [ahead, List.drop_eq_getElem_cons inside, Value.unspacedAll_cons_of_whitespace white, ahead]

theorem ahead_of_value (found : values[pos]? = some v) (solid : ¬v.isWhitespace) :
    ahead values pos = v.unspaced :: ahead values (pos + 1) := by
  obtain ⟨inside, rfl⟩ := List.getElem?_eq_some_iff.mp found
  rw [ahead, List.drop_eq_getElem_cons inside, Value.unspacedAll_cons_of_not_whitespace solid,
    ahead]

theorem ahead_of_length_le (le : values.length ≤ pos) : ahead values pos = [] := by
  rw [ahead, List.drop_eq_nil_of_le le, unspacedAll]

/-- White space makes no difference to what lies ahead. -/
theorem ahead_of_gap (gap : Gap values start i) : ahead values start = ahead values i := by
  obtain ⟨le, white, -⟩ := gap
  obtain ⟨d, rfl⟩ := Nat.exists_eq_add_of_le le
  clear le
  induction d with
  | zero => rfl
  | succ d ih =>
      obtain ⟨v, found, hv⟩ := white (start + d) (by omega) (by omega)
      rw [ih fun j low high => white j low (by omega), ahead_of_whitespace found hv, Nat.add_assoc]

/-- A value with its white space in front taken off what lies ahead. -/
theorem ahead_of_gap_value (gap : Gap values start i) (found : values[i]? = some v) :
    ahead values start = v.unspaced :: ahead values (i + 1) := by
  rw [ahead_of_gap gap, ahead_of_value found (gap.2.2 v found)]

/-- What is first of all that lies ahead stands in the list, behind white space. -/
theorem exists_value_of_ahead {w : Value} {rest : List Value}
    (h : ahead values start = w :: rest) :
    ∃ i v, Gap values start i ∧ values[i]? = some v ∧ v.unspaced = w ∧
      ahead values (i + 1) = rest := by
  have gap := gap_skipWhitespace values start
  generalize skipWhitespace values start = i at gap
  cases found : values[i]? with
  | none =>
      rw [ahead_of_gap gap, ahead_of_length_le (List.getElem?_eq_none_iff.mp found)] at h
      cases h
  | some v =>
      rw [ahead_of_gap_value gap found, List.cons.injEq] at h
      exact ⟨i, v, gap, found, h.1, h.2⟩

/-- Nothing but white space is left where nothing lies ahead. -/
theorem gap_length_iff (le : e ≤ values.length) :
    Gap values e values.length ↔ ahead values e = [] := by
  constructor
  · intro gap
    rw [ahead_of_gap gap, ahead_of_length_le (Nat.le_refl _)]
  · intro nothing
    have gap := gap_skipWhitespace values e
    generalize skipWhitespace values e = i at gap
    have inside : i ≤ values.length := by
      rcases gap.forward with rfl | ⟨-, le⟩
      · exact le
      · exact le
    cases found : values[i]? with
    | none =>
        have last : i = values.length :=
          Nat.le_antisymm inside (List.getElem?_eq_none_iff.mp found)
        exact last ▸ gap
    | some v =>
        rw [ahead_of_gap_value gap found] at nothing
        cases nothing

end CssSieve
