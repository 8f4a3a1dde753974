import CssSieve.Value.Basic
import Mathlib.Data.List.DropRight

/-!
# Trimming

Trimming takes white space away at the ends of a list and nothing else: more white space there
makes no difference, and a second run finds nothing left to take.
-/

namespace CssSieve.Value

theorem isWhitespace_iff {v : Value} : v.isWhitespace = true ↔ v = .token .whitespace := by
  constructor
  · intro h
    unfold isWhitespace at h
    split at h
    next => rfl
    next => cases h
  · rintro rfl
    rfl

/-- White space and nothing else. -/
def Blank (vs : List Value) : Prop := ∀ v ∈ vs, v.isWhitespace = true

theorem blank_nil : Blank [] := by simp [Blank]

theorem blank_space : Blank [.token .whitespace] := by simp [Blank, isWhitespace]

theorem Blank.dropWhile {us : List Value} (h : Blank us) (vs : List Value) :
    (us ++ vs).dropWhile isWhitespace = vs.dropWhile isWhitespace :=
  List.dropWhile_append_of_pos h

theorem Blank.reverse {us : List Value} (h : Blank us) : Blank us.reverse :=
  fun v hv => h v (List.mem_reverse.mp hv)

theorem Blank.dropWhile_eq_nil {us : List Value} (h : Blank us) :
    us.dropWhile isWhitespace = [] :=
  List.dropWhile_eq_nil_iff.mpr h

/-- A list that does not start with white space keeps its front. -/
theorem dropWhile_of_head {vs : List Value} (h : ∀ v ∈ vs.head?, v.isWhitespace = false) :
    vs.dropWhile isWhitespace = vs := by
  cases vs with
  | nil => rfl
  | cons v vs => simp [h v rfl]

theorem dropWhile_append_of_head {us : List Value} (nonempty : us ≠ [])
    (h : ∀ v ∈ us.head?, v.isWhitespace = false) (vs : List Value) :
    (us ++ vs).dropWhile isWhitespace = us ++ vs := by
  cases us with
  | nil => exact absurd rfl nonempty
  | cons u us => exact dropWhile_of_head h

theorem mem_head?_of_front {us vs : List Value} (h : us <+: vs) : ∀ v ∈ us.head?, v ∈ vs.head? := by
  intro v hv
  obtain ⟨rest, rfl⟩ := h
  rw [List.head?_append, Option.mem_def.mp hv]
  rfl

/-! ## White space at the end -/

theorem trimEnd_front (vs : List Value) : trimEnd vs <+: vs :=
  List.rdropWhile_prefix isWhitespace vs

theorem trimEnd_append_blank (vs : List Value) {us : List Value} (h : Blank us) :
    trimEnd (vs ++ us) = trimEnd vs := by
  rw [trimEnd, List.reverse_append, h.reverse.dropWhile, trimEnd]

theorem trimEnd_trimEnd (vs : List Value) : trimEnd (trimEnd vs) = trimEnd vs :=
  List.rdropWhile_idempotent isWhitespace vs

/-- What is left of a trimmed list when something at its front is dropped is still trimmed. -/
theorem trimEnd_of_suffix {us vs : List Value} (h : us <:+ vs) (trimmed : trimEnd vs = vs) :
    trimEnd us = us := by
  refine List.rdropWhile_eq_self_iff.mpr fun nonempty => ?_
  obtain ⟨front, rfl⟩ := h
  have last := List.rdropWhile_eq_self_iff.mp trimmed (List.append_ne_nil_of_right_ne_nil _ nonempty)
  rwa [List.getLast_append_of_ne_nil _ nonempty] at last

/-! ## White space at both ends -/

theorem trim_append_blank (vs : List Value) {us : List Value} (h : Blank us) :
    trim (vs ++ us) = trim vs := by
  rw [trim, trimEnd_append_blank vs h, trim]

theorem trim_blank_append {us : List Value} (h : Blank us) (vs : List Value) :
    trim (us ++ vs) = trim vs := by
  have behind : trimEnd (us ++ vs) = if trimEnd vs = [] then [] else us ++ trimEnd vs := by
    rw [trimEnd, trimEnd, List.reverse_append, List.dropWhile_append, h.reverse.dropWhile_eq_nil]
    simp only [List.isEmpty_iff, List.reverse_eq_nil_iff]
    split
    next => rfl
    next => simp
  rw [trim, behind, trim]
  split
  next none_left => rw [none_left]
  next => exact h.dropWhile _

theorem trim_trim (vs : List Value) : trim (trim vs) = trim vs := by
  have trimmed : trimEnd (trim vs) = trim vs :=
    trimEnd_of_suffix (List.dropWhile_suffix _) (trimEnd_trimEnd vs)
  rw [trim, trimmed, trim]
  exact List.dropWhile_idempotent isWhitespace (trimEnd vs)

theorem mem_of_mem_trim {v : Value} {vs : List Value} (h : v ∈ trim vs) : v ∈ vs :=
  (trimEnd_front vs).subset ((List.dropWhile_suffix _).subset h)

/-- Trimming a list that does not start with white space leaves its first value in front. -/
theorem head?_trim {vs : List Value} (h : ∀ v ∈ vs.head?, v.isWhitespace = false) :
    ∀ v ∈ (trim vs).head?, v ∈ vs.head? := by
  have front : ∀ v ∈ (trimEnd vs).head?, v ∈ vs.head? := mem_head?_of_front (trimEnd_front vs)
  rw [trim, dropWhile_of_head fun v hv => h v (front v hv)]
  exact front

end CssSieve.Value
