import CssSieve.Proofs.Value.Trimming
import CssSieve.Sheet.Important

/-!
# Stripping an annotation of importance

One run of `stripImportant` takes at most one annotation away. Where it finds none, the value is
settled: a second run leaves it as it is and finds none either. White space behind a value makes no
difference, and an annotation that is put behind a value is found again.
-/

namespace CssSieve

theorem stripImportant_of_unmarked {value : List Value} (h : (stripImportant value).2 = false) :
    stripImportant (stripImportant value).1 = stripImportant value := by
  have settled (backwards : List Value) :
      (backwards.dropWhile Value.isWhitespace).dropWhile Value.isWhitespace =
        backwards.dropWhile Value.isWhitespace :=
    List.dropWhile_idempotent _ _
  cases found : beforeAnnotation? (value.reverse.dropWhile Value.isWhitespace) with
  | some front => simp [stripImportant, found] at h
  | none => simp [stripImportant, found, settled]

theorem beforeAnnotation?_suffix {backwards front : List Value}
    (h : beforeAnnotation? backwards = some front) : front <:+ backwards := by
  cases backwards with
  | nil => cases h
  | cons word rest =>
      rw [beforeAnnotation?] at h
      split at h
      next =>
        split at h
        next => cases h
        next bang back found =>
          split at h
          next =>
            rw [Option.some.injEq] at h
            have behind_bang : front <:+ rest.dropWhile Value.isWhitespace :=
              found ▸ h ▸ List.suffix_cons bang back
            have behind_word := behind_bang.trans (List.dropWhile_suffix _)
            exact behind_word.trans (List.suffix_cons word rest)
          next => cases h
      next => cases h

/-- Stripping takes something away at the end and nothing else. -/
theorem stripImportant_front (value : List Value) : (stripImportant value).1 <+: value := by
  have trimmed : value.reverse.dropWhile Value.isWhitespace <:+ value.reverse :=
    List.dropWhile_suffix _
  rw [← List.reverse_suffix]
  rw [stripImportant]
  cases found : beforeAnnotation? (value.reverse.dropWhile Value.isWhitespace) with
  | some front =>
      rw [List.reverse_reverse]
      exact ((List.dropWhile_suffix _).trans (beforeAnnotation?_suffix found)).trans trimmed
  | none =>
      rw [List.reverse_reverse]
      exact trimmed

/-- What is left has no white space at its end. -/
theorem trimEnd_stripImportant (value : List Value) :
    Value.trimEnd (stripImportant value).1 = (stripImportant value).1 := by
  have settled (backwards : List Value) :
      Value.trimEnd (backwards.dropWhile Value.isWhitespace).reverse =
        (backwards.dropWhile Value.isWhitespace).reverse := by
    rw [Value.trimEnd, List.reverse_reverse, List.dropWhile_idempotent]
  rw [stripImportant]
  split
  next front _ => exact settled front
  next => exact settled value.reverse

theorem stripImportant_append_blank (value : List Value) {us : List Value} (h : Value.Blank us) :
    stripImportant (value ++ us) = stripImportant value := by
  rw [stripImportant, List.reverse_append, h.reverse.dropWhile, stripImportant]

/-- An annotation behind a value is found, whatever white space stands around it. -/
theorem stripImportant_marked (value : List Value) {us : List Value} (h : Value.Blank us) :
    stripImportant (value ++ ([.token (.delim '!'), .token (.ident "important")] ++ us)) =
      (Value.trimEnd value, true) := by
  have word : (Value.token (.ident "important")).isImportantWord = true := by decide +kernel
  rw [← List.append_assoc, stripImportant_append_blank _ h]
  simp [stripImportant, beforeAnnotation?, Value.isWhitespace, Value.isBang, word, Value.trimEnd]

end CssSieve
