import CssSieve.Proofs.Grammar.Span

/-!
# Matches move forward

A match of nothing ends where it begins. Every other match ends further on, and within the list.
-/

namespace CssSieve

theorem Gap.forward {values : List Value} {start e : Nat} (gap : Gap values start e) :
    e = start ∨ start < e ∧ e ≤ values.length := by
  obtain ⟨le, white, -⟩ := gap
  rcases Nat.eq_or_lt_of_le le with same | lt
  · exact Or.inl same.symm
  · obtain ⟨v, hv, -⟩ := white (e - 1) (by omega) (by omega)
    obtain ⟨inside, -⟩ := List.getElem?_eq_some_iff.mp hv
    exact Or.inr ⟨lt, by omega⟩

namespace Span

/-- A span that ends where it begins, or further on within the list. -/
def Forward (span : Span) : Prop :=
  ∀ {values : List Value} {start e : Nat}, span values start e →
    e = start ∨ start < e ∧ e ≤ values.length

theorem one_advances {kind : Value → Prop} {values : List Value} {start e : Nat}
    (h : one kind values start e) : start < e ∧ e ≤ values.length := by
  obtain ⟨i, gap, ⟨v, hv, -⟩, rfl⟩ := h
  obtain ⟨inside, -⟩ := List.getElem?_eq_some_iff.mp hv
  have le := gap.1
  omega

theorem forward_one (kind : Value → Prop) : Forward (one kind) := by
  intro values start e h
  exact Or.inr (one_advances h)

theorem forward_whitespace (required : Bool) : Forward (whitespace required) := by
  intro values start e h
  exact h.1.forward

theorem forward_noWhitespace : Forward noWhitespace := by
  intro values start e h
  exact Or.inl h.1

theorem forward_oneOf {parts : List Span} (h : ∀ part ∈ parts, Forward part) :
    Forward (oneOf parts) := by
  rintro values start e ⟨part, hpart, he⟩
  exact h part hpart he

theorem forward_afterGap {span : Span} (h : Forward span) (commas : Bool) :
    Forward (afterGap commas span) := by
  intro values start e he
  cases commas with
  | false => exact h he
  | true =>
      obtain ⟨m, first, second⟩ := he
      have hm := one_advances first
      have he := h second
      omega

theorem ne_of_afterGap {span : Span} (forward : Forward span)
    (advances : ∀ values start, ¬span values start start) {commas : Bool} {values : List Value}
    {start e : Nat} (h : afterGap commas span values start e) : e ≠ start := by
  rintro rfl
  cases commas with
  | false => exact advances values e h
  | true =>
      obtain ⟨m, first, second⟩ := h
      have hm := one_advances first
      have he := forward second
      omega

theorem forward_andThen {parts : List Span} (h : ∀ part ∈ parts, Forward part) (commas : Bool) :
    Forward (andThen commas parts) := by
  intro values start e he
  induction parts generalizing start with
  | nil => exact Or.inl he
  | cons part rest ih =>
      obtain ⟨m, first, second⟩ := he
      have hm := forward_afterGap (h part List.mem_cons_self) commas first
      have he := ih (fun q hq => h q (List.mem_cons_of_mem part hq)) second
      omega

theorem forward_inOrder {parts : List Span} (h : ∀ part ∈ parts, Forward part) (commas : Bool) :
    Forward (inOrder commas parts) := by
  intro values start e he
  cases parts with
  | nil => exact Or.inl he
  | cons part rest =>
      obtain ⟨m, first, second⟩ := he
      have hm := h part List.mem_cons_self first
      have he := forward_andThen (fun q hq => h q (List.mem_cons_of_mem part hq)) commas second
      omega

theorem forward_repeated {part : Span} (h : Forward part) (m : Multiplier) :
    Forward (repeated m part) := by
  rintro values start e ⟨count, -, -, he⟩
  refine forward_inOrder (fun q hq => ?_) m.commas he
  exact List.eq_of_mem_replicate hq ▸ h

theorem forward_anyOrder {parts : List Span} (h : ∀ part ∈ parts, Forward part)
    (allRequired : Bool) : Forward (anyOrder allRequired parts) := by
  rintro values start e ⟨used, -, he, -⟩
  refine forward_inOrder (fun q hq => ?_) false he
  obtain ⟨i, -, rfl⟩ := List.mem_map.mp hq
  intro values start e he
  exact h (parts.get i) (List.get_mem parts i) he.1

end Span

namespace Grammar

mutual

theorem forward_matches : (g : Grammar) → g.Matches.Forward
  | keyword _ | token _ _ | customProperty | delim _ => Span.forward_one _
  | function _ _ | block _ _ => Span.forward_one _
  | whitespace required => Span.forward_whitespace required
  | noWhitespace => Span.forward_noWhitespace
  | oneOf gs => Span.forward_oneOf (forward_matchesOf gs)
  | inOrder commas gs => Span.forward_inOrder (forward_matchesOf gs) commas
  | repeated m g => Span.forward_repeated (forward_matches g) m
  | anyOrder all gs => Span.forward_anyOrder (forward_matchesOf gs) all

theorem forward_matchesOf : (gs : List Grammar) → ∀ part ∈ matchesOf gs, Span.Forward part
  | [] => by simp [matchesOf]
  | g :: gs => by
      intro part hpart
      rcases List.mem_cons.mp hpart with rfl | hpart
      · exact forward_matches g
      · exact forward_matchesOf gs part hpart

end

end Grammar

end CssSieve
