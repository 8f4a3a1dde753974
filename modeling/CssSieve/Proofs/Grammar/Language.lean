import CssSieve.Proofs.Grammar.Consuming
import CssSieve.Proofs.Grammar.Parts
import Mathlib.Computability.Language
import Mathlib.Order.CompletePartialOrder

/-!
# What the values of a match spell

White space left out, the values that a match consumes are a word over single values. The words of
a grammar are in a language that is put together as the grammar is: alternatives are sums,
sequences are products, and repetitions without commas are powers. So a property of whole lists can
be read off a regular language, and no position in a list has to be looked at.
-/

namespace CssSieve

open scoped Computability

variable {values : List Value} {v : Value} {start m i e : Nat} {L M : Language Value}

/-- The values of a list other than white space. -/
def solid (values : List Value) : List Value := values.filter (!·.isWhitespace)

theorem not_isWhitespace_of_mem_solid (values : List Value) :
    ∀ v ∈ solid values, ¬v.isWhitespace := by
  simp [solid]

/-! ## The values between two positions -/

/-- The values between two positions. -/
def slice (values : List Value) (start e : Nat) : List Value := (values.drop start).take (e - start)

theorem slice_self (values : List Value) (start : Nat) : slice values start start = [] := by
  simp [slice]

theorem slice_append (before : start ≤ m) (behind : m ≤ e) :
    slice values start e = slice values start m ++ slice values m e := by
  obtain ⟨j, rfl⟩ := Nat.exists_eq_add_of_le before
  obtain ⟨k, rfl⟩ := Nat.exists_eq_add_of_le behind
  rw [Nat.add_assoc, slice, slice, slice, Nat.add_sub_cancel_left, Nat.add_sub_cancel_left,
    ← Nat.add_assoc, Nat.add_sub_cancel_left, List.take_add, List.drop_drop]

theorem slice_succ (found : values[i]? = some v) : slice values i (i + 1) = [v] := by
  obtain ⟨inside, rfl⟩ := List.getElem?_eq_some_iff.mp found
  rw [slice, List.drop_eq_getElem_cons inside, Nat.add_sub_cancel_left]
  rfl

theorem take_eq_append_slice (le : m ≤ e) :
    values.take e = values.take m ++ slice values m e := by
  simpa [slice] using slice_append (Nat.zero_le m) le

theorem exists_of_mem_slice (listed : v ∈ slice values start e) :
    ∃ i, start ≤ i ∧ i < e ∧ values[i]? = some v := by
  obtain ⟨i, found⟩ := List.mem_iff_getElem?.mp listed
  have inside : i < e - start := by
    apply Nat.lt_of_not_le
    intro outside
    rw [slice, List.getElem?_take_eq_none outside] at found
    cases found
  rw [slice, List.getElem?_take_of_lt inside, List.getElem?_drop] at found
  exact ⟨start + i, Nat.le_add_right start i, by omega, found⟩

/-- The values between two positions, white space left out. -/
def spelled (values : List Value) (start e : Nat) : List Value := solid (slice values start e)

theorem spelled_self (values : List Value) (start : Nat) : spelled values start start = [] := by
  rw [spelled, slice_self]
  rfl

theorem spelled_append (before : start ≤ m) (behind : m ≤ e) :
    spelled values start e = spelled values start m ++ spelled values m e := by
  rw [spelled, slice_append before behind, solid, List.filter_append]
  rfl

theorem spelled_succ (found : values[i]? = some v) : spelled values i (i + 1) = solid [v] :=
  congrArg solid (slice_succ found)

theorem spelled_length (values : List Value) : spelled values 0 values.length = solid values := by
  simp [spelled, slice]

theorem spelled_of_gap (gap : Gap values start e) : spelled values start e = [] := by
  obtain ⟨k, rfl⟩ := Nat.exists_eq_add_of_le gap.1
  obtain ⟨-, white, -⟩ := gap
  induction k with
  | zero => exact spelled_self values start
  | succ k ih =>
      obtain ⟨v, found, isWhite⟩ := white (start + k) (Nat.le_add_right _ _) (by omega)
      have before := ih fun i low high => white i low (by omega)
      rw [spelled_append (Nat.le_add_right start k) (by omega), before, ← Nat.add_assoc,
        spelled_succ found]
      simp [solid, isWhite]

/-! ## Words -/

/-- One value of a kind. -/
def oneValue (kind : Value → Prop) : Language Value := {w | ∃ v, w = [v] ∧ kind v}

/-- Words of values that all are of a kind. -/
def allValues (kind : Value → Prop) : Language Value := {w | ∀ v ∈ w, kind v}

@[simp] theorem nil_mem_mul_iff : [] ∈ L * M ↔ [] ∈ L ∧ [] ∈ M := by
  simp [Language.mem_mul, List.append_eq_nil_iff]

@[simp] theorem nil_not_mem_oneValue (kind : Value → Prop) : [] ∉ oneValue kind := by
  rintro ⟨v, same, -⟩
  cases same

/-- The words of the language put together are words of it again. -/
structure Closed (M : Language Value) : Prop where
  one_le : 1 ≤ M
  mul_self_le : M * M ≤ M

namespace Closed

variable {K : Language Value}

theorem mul_le (closed : Closed M) (hL : L ≤ M) (hK : K ≤ M) : L * K ≤ M :=
  (mul_le_mul' hL hK).trans closed.mul_self_le

theorem kstar_le (closed : Closed M) (hL : L ≤ M) : L∗ ≤ M :=
  kstar_le_of_mul_le_right closed.one_le (closed.mul_le hL le_rfl)

theorem mul_kstar_le (closed : Closed M) (hL : L ≤ M) (hK : K ≤ M) : L * K∗ ≤ M :=
  closed.mul_le hL (closed.kstar_le hK)

end Closed

section

variable {kind kind' : Value → Prop}

theorem closed_allValues (kind : Value → Prop) : Closed (allValues kind) where
  one_le := by
    rintro w rfl v listed
    cases listed
  mul_self_le := by
    rintro w word
    obtain ⟨xs, hxs, ys, hys, rfl⟩ := Language.mem_mul.mp word
    exact List.forall_mem_append.mpr ⟨hxs, hys⟩

theorem oneValue_le_allValues (h : ∀ v, kind v → kind' v) : oneValue kind ≤ allValues kind' := by
  rintro w ⟨v, rfl, hv⟩
  exact List.forall_mem_singleton.mpr (h v hv)

end

namespace Grammar

variable {g : Grammar} {gs : List Grammar}

/-- The values of every match spell a word of the language. -/
def Spells (g : Grammar) (L : Language Value) : Prop :=
  ∀ ⦃values : List Value⦄ ⦃start e : Nat⦄, Search.span g.search values start e →
    spelled values start e ∈ L

theorem Spells.mono (h : g.Spells L) (le : L ≤ M) : g.Spells M := by
  intro values start e found
  exact le (h found)

theorem spells_of_finds_one {kind kind' : Value → Prop}
    (finds : Search.Finds g.search (Span.one kind)) (h : ∀ v, kind v → kind' v) :
    g.Spells (oneValue kind') := by
  intro values start e found
  obtain ⟨i, gap, ⟨v, here, accepted⟩, rfl⟩ := (finds values start e).mp found
  have dark : v.isWhitespace = false := by simpa using gap.2.2 v here
  refine ⟨v, ?_, h v accepted⟩
  rw [spelled_append gap.1 (Nat.le_succ i), spelled_of_gap gap, spelled_succ here]
  simp [solid, dark]

theorem spells_oneOf_nil : (oneOf []).Spells 0 := by
  intro values start e found
  obtain ⟨g, listed, -⟩ := span_oneOf_iff.mp found
  cases listed

theorem Spells.oneOf_cons (first : g.Spells L) (rest : (oneOf gs).Spells M) :
    (oneOf (g :: gs)).Spells (L + M) := by
  intro values start e found
  obtain ⟨h, listed, he⟩ := span_oneOf_iff.mp found
  rcases List.mem_cons.mp listed with rfl | listed
  · exact Or.inl (first he)
  · exact Or.inr (rest (span_oneOf_iff.mpr ⟨h, listed, he⟩))

theorem spells_seq_nil : (seq []).Spells 1 := by
  intro values start e found
  obtain rfl := span_seq_nil.mp found
  exact spelled_self values e

theorem Spells.seq_cons (first : g.Spells L) (rest : (seq gs).Spells M) :
    (seq (g :: gs)).Spells (L * M) := by
  intro values start e found
  obtain ⟨m, here, there⟩ := span_seq_cons.mp found
  have ahead := ends_forward g here
  have behind := ends_forward (seq gs) there
  rw [spelled_append (show start ≤ m by omega) (by omega)]
  exact Language.append_mem_mul (first here) (rest there)

theorem Spells.optional (h : g.Spells L) : (optional g).Spells (1 + L) := by
  intro values start e found
  rcases span_optional_iff.mp found with rfl | once
  · exact Or.inl (spelled_self values e)
  · exact Or.inr (h once)

theorem Spells.of_chain (h : g.Spells L)
    (chain : Relation.ReflTransGen (Search.span g.search values) start e) :
    start ≤ e ∧ spelled values start e ∈ L∗ := by
  induction chain with
  | refl =>
      rw [spelled_self]
      exact ⟨Nat.le_refl start, Language.nil_mem_kstar L⟩
  | tail _ last ih =>
      obtain ⟨before, word⟩ := ih
      have behind := ends_forward g last
      refine ⟨by omega, ?_⟩
      have closed : L∗ * L ≤ L∗ := kstar_mul_le_kstar
      rw [spelled_append before (by omega)]
      exact closed (Language.append_mem_mul word (h last))

theorem Spells.atLeastOne (h : g.Spells L) : (atLeastOne g).Spells (L * L∗) := by
  intro values start e found
  obtain ⟨m, first, others⟩ := Relation.TransGen.head'_iff.mp (span_atLeastOne_iff.mp found)
  obtain ⟨behind, word⟩ := h.of_chain others
  have ahead := ends_forward g first
  rw [spelled_append (by omega) behind]
  exact Language.append_mem_mul (h first) word

theorem Spells.matchesAll (h : g.Spells L) (matched : g.matchesAll values) : solid values ∈ L := by
  obtain ⟨e, found, gap⟩ := (matchesAll_iff_covers_span g values).mp matched
  rw [← spelled_length, spelled_append (Nat.zero_le e) gap.1, spelled_of_gap gap, List.append_nil]
  exact h found

/-! ## What a language says of its grammar -/

theorem Spells.advances (h : g.Spells L) (some_value : [] ∉ L) : Search.Advances g.search := by
  intro values start blank
  have spelt := h blank
  rw [spelled_self] at spelt
  exact some_value spelt

end Grammar

end CssSieve
