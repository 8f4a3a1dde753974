import CssSieve.Proofs.Policy.Importance
import Mathlib.Data.List.Basic

/-!
# What an annotation is

A value is annotated when its last two values other than white space are the delimiter `!` and the
word `important`. Stripping gives what stands before that delimiter, or else the whole value, in
both cases without white space at its end (`stripImportant_exact`). The annotation can also be
looked for by position, from the end of the value backwards; `stripAt?` does so and gives nothing
when it asks for a position that is not there, which never happens (`stripAt?_eq`).
-/

namespace CssSieve

open Value (Blank trimEnd)

variable {value front us : List Value}

/-! ## The last two values -/

/-- The last two values other than white space are the delimiter `!` and the word `important`, in
any ASCII case. -/
def EndsMarked (value : List Value) : Prop :=
  ∃ before word, value.filter (!·.isWhitespace) =
    before ++ [.token (.delim '!'), .token (.ident word)] ∧ Text.caseless word "important"

theorem filter_dark_eq_nil_iff : us.filter (!·.isWhitespace) = [] ↔ Blank us := by
  simp [List.filter_eq_nil_iff, Blank]

theorem Value.blank_of_not_dark (h : ∀ v ∈ us, ¬(!v.isWhitespace) = true) : Blank us := by
  simpa [Blank] using h

/-- The last two values are the annotation, with the white space that stands around them. -/
theorem endsMarked_iff : EndsMarked value ↔ ∃ front us, value = front ++ us ∧ Marking us := by
  constructor
  · rintro ⟨before, word, last, spelled⟩
    obtain ⟨front, us, rfl, -, two⟩ := List.filter_eq_append_iff.mp last
    obtain ⟨lead, behind_bang, rfl, -, -, one⟩ := List.filter_eq_cons_iff.mp two
    obtain ⟨gap, rest, rfl, gap_white, -, none_left⟩ := List.filter_eq_cons_iff.mp one
    refine ⟨front ++ lead, .token (.delim '!') :: (gap ++ .token (.ident word) :: rest), by simp,
      .intro ?_ spelled ?_⟩
    · exact Value.blank_of_not_dark gap_white
    · exact filter_dark_eq_nil_iff.mp none_left
  · rintro ⟨front, us, rfl, marking⟩
    obtain @⟨word, gap, rest, gap_blank, spelled, rest_blank⟩ := marking
    refine ⟨front.filter (!·.isWhitespace), word, ?_, spelled⟩
    have gap_gone := filter_dark_eq_nil_iff.mpr gap_blank
    have rest_gone := filter_dark_eq_nil_iff.mpr rest_blank
    have bang_stays : (Value.token (.delim '!')).isWhitespace = false := rfl
    have word_stays : (Value.token (.ident word)).isWhitespace = false := rfl
    simp [bang_stays, word_stays, gap_gone, rest_gone]

/-! ## The annotation by position -/

/-- The position behind the last value before `pos` that is not white space. Nothing, if a position
is asked for that is not there. -/
def behindDark? (value : List Value) : Nat → Option Nat
  | 0 => some 0
  | pos + 1 =>
    match value[pos]? with
    | none => none
    | some v => if v.isWhitespace then behindDark? value pos else some (pos + 1)

/-- The position of the delimiter in front of the word at position `word`, if it stands there. -/
def bangBefore? (value : List Value) (word : Nat) : Option (Option Nat) :=
  match behindDark? value word with
  | none => none
  | some 0 => some none
  | some (bang + 1) => value[bang]?.map fun v => if v.isBang then some bang else none

/-- The position where the annotation begins, if the value ends with one. -/
def markAt? (value : List Value) : Option (Option Nat) :=
  if value.getLast?.any Value.isImportantWord then
    match value.length with
    | 0 => none
    | word + 1 => bangBefore? value word
  else some none

/-- As `stripImportant`, with the annotation looked for by position. Nothing, if a position is asked
for that is not there. -/
def stripAt? (value : List Value) : Option (List Value × Bool) :=
  let value := trimEnd value
  (markAt? value).map fun
    | some bang => (trimEnd (value.take bang), true)
    | none => (trimEnd value, false)

theorem trimEnd_concat (vs : List Value) (v : Value) :
    trimEnd (vs ++ [v]) = if v.isWhitespace then trimEnd vs else vs ++ [v] :=
  List.rdropWhile_concat Value.isWhitespace vs v

/-- Walking back stays within the values before `pos`. -/
theorem behindDark?_eq {pos : Nat} (within : pos ≤ value.length) :
    behindDark? value pos = some (trimEnd (value.take pos)).length := by
  induction pos with
  | zero => rfl
  | succ pos ih =>
      have here : value[pos]? = some value[pos] := List.getElem?_eq_getElem within
      rw [behindDark?, here, List.take_succ_eq_append_getElem within, trimEnd_concat]
      dsimp only
      split
      next => exact ih (Nat.le_of_succ_le within)
      next =>
        rw [List.length_append, List.length_take, Nat.min_eq_left (Nat.le_of_succ_le within)]
        rfl

theorem reverse_trimEnd (vs : List Value) :
    (trimEnd vs).reverse = vs.reverse.dropWhile Value.isWhitespace :=
  List.reverse_reverse _

/-- The delimiter is found where reading backwards finds it. -/
theorem bangBefore?_eq {word : Value} (worded : word.isImportantWord = true)
    (before : List Value) : bangBefore? (before ++ [word]) before.length =
      some ((beforeAnnotation? (word :: before.reverse)).map List.length) := by
  have reached : behindDark? (before ++ [word]) before.length = some (trimEnd before).length := by
    rw [behindDark?_eq (by simp), List.take_left]
  rw [bangBefore?, reached, beforeAnnotation?, if_pos worded, ← reverse_trimEnd]
  rcases List.eq_nil_or_concat' (trimEnd before) with none_left | ⟨front, bang, some_left⟩
  · simp [none_left]
  · have here : (before ++ [word])[front.length]? = some bang := by
      have stands : front ++ [bang] <+: before ++ [word] :=
        (some_left ▸ Value.trimEnd_front before).trans (List.prefix_append before [word])
      obtain ⟨rest, parts⟩ := stands
      simp [← parts]
    simp only [some_left, List.length_append, List.length_singleton, here, List.reverse_concat,
      Option.map_some]
    split <;> simp

theorem markAt?_eq (value : List Value) :
    markAt? value = some ((beforeAnnotation? value.reverse).map List.length) := by
  rcases List.eq_nil_or_concat' value with rfl | ⟨before, word, rfl⟩
  · rfl
  · rw [markAt?, List.getLast?_concat, List.length_append, List.length_singleton,
      List.reverse_concat]
    by_cases worded : word.isImportantWord = true
    · rw [Option.any_some, if_pos worded]
      exact bangBefore?_eq worded before
    · rw [Option.any_some, if_neg worded, beforeAnnotation?, if_neg worded]
      rfl

/-- No position is asked for that is not there, and what is found is what stripping finds. -/
theorem stripAt?_eq (value : List Value) : stripAt? value = some (stripImportant value) := by
  have trimmed := Value.trimEnd_trimEnd value
  rw [stripAt?, stripImportant, ← reverse_trimEnd]
  generalize trimEnd value = value at trimmed
  rw [markAt?_eq]
  cases found : beforeAnnotation? value.reverse with
  | none => simp [trimmed]
  | some back =>
      -- what stands before the annotation is a front of the value
      have front : back.reverse <+: value := by
        rw [← List.reverse_suffix, List.reverse_reverse]
        exact beforeAnnotation?_suffix found
      obtain ⟨us, rfl⟩ := front
      simp [trimEnd]

/-! ## What is left -/

theorem stripImportant_of_endsMarked (marked : EndsMarked value) :
    ∃ front us, value = front ++ us ∧ Marking us ∧
      stripImportant value = (trimEnd front, true) := by
  obtain ⟨front, us, rfl, marking⟩ := endsMarked_iff.mp marked
  exact ⟨front, us, rfl, marking, stripImportant_append_marking marking front⟩

theorem stripImportant_of_not_endsMarked (plain : ¬EndsMarked value) :
    stripImportant value = (trimEnd value, false) := by
  apply stripImportant_of_no_marking
  intro front us parts marking
  exact plain (endsMarked_iff.mpr ⟨front, us, parts, marking⟩)

theorem dark_of_trimEnd_eq (trimmed : trimEnd value = value) :
    ∀ v ∈ value.getLast?, v.isWhitespace = false := by
  intro v hv
  obtain ⟨nonempty, rfl⟩ := List.mem_getLast?_eq_getLast hv
  simpa using List.rdropWhile_eq_self_iff.mp trimmed nonempty

/-- **Stripping is exact.** The flag says whether the last two values other than white space are an
annotation. What is left is then what stands before its delimiter, and else the value, in both cases
without white space at its end; so it is a front of the value that does not end in white space. It
is also found by position, without a step out of the value. -/
theorem stripImportant_exact (value : List Value) :
    ((stripImportant value).2 = true ↔ EndsMarked value) ∧
      (EndsMarked value → ∃ front us, value = front ++ us ∧ Marking us ∧
        (stripImportant value).1 = trimEnd front) ∧
      (¬EndsMarked value → (stripImportant value).1 = trimEnd value) ∧
      (stripImportant value).1 <+: value ∧
      (∀ v ∈ (stripImportant value).1.getLast?, v.isWhitespace = false) ∧
      stripAt? value = some (stripImportant value) := by
  refine ⟨?_, ?_, ?_, stripImportant_front value,
    dark_of_trimEnd_eq (trimEnd_stripImportant value), stripAt?_eq value⟩
  · by_cases marked : EndsMarked value
    · obtain ⟨front, us, -, -, stripped⟩ := stripImportant_of_endsMarked marked
      simp [stripped, marked]
    · simp [stripImportant_of_not_endsMarked marked, marked]
  · intro marked
    obtain ⟨front, us, parts, marking, stripped⟩ := stripImportant_of_endsMarked marked
    exact ⟨front, us, parts, marking, congrArg Prod.fst stripped⟩
  · intro plain
    exact congrArg Prod.fst (stripImportant_of_not_endsMarked plain)

end CssSieve
