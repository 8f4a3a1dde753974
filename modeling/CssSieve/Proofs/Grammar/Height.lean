import CssSieve.Proofs.Grammar.Consuming

/-!
# How deep the values of a match are

A grammar is a finite tree, and its functions and blocks nest as deeply as the tree says. What it
matches nests no deeper: every function or block of a match is there because of one in the grammar.
-/

namespace CssSieve

theorem Value.token_of_isWhitespace {v : Value} (h : v.isWhitespace) : v.token?.isSome := by
  cases v <;> first | rfl | cases h

theorem Value.token_of_isComma {v : Value} (h : v.isComma) : v.token?.isSome := by
  cases v <;> first | rfl | cases h

namespace Grammar

mutual

/-- How deeply functions and blocks nest in the grammar. -/
def height : Grammar → Nat
  | keyword _ | token _ _ | customProperty | delim _ | whitespace _ | noWhitespace => 0
  | function _ g | block _ g => height g + 1
  | oneOf gs | inOrder _ gs | anyOrder _ gs => heightAll gs
  | repeated _ g => height g

/-- The greatest height in a list, zero for the empty one. -/
def heightAll : List Grammar → Nat
  | [] => 0
  | g :: gs => max (height g) (heightAll gs)

end

theorem heightAll_le_iff {gs : List Grammar} {n : Nat} :
    heightAll gs ≤ n ↔ ∀ g ∈ gs, g.height ≤ n := by
  induction gs with
  | nil => simp [heightAll]
  | cons g gs ih => rw [heightAll, Nat.max_le, ih, List.forall_mem_cons]

section

variable {g h : Grammar} {gs : List Grammar} {n : Nat}

@[simp] theorem height_keyword (words : List String) : (keyword words).height = 0 := rfl

@[simp] theorem height_token (kind : TokenKind) (test : Option (Token → Bool)) :
    (token kind test).height = 0 := rfl

@[simp] theorem height_delim (chars : List Char) : (delim chars).height = 0 := rfl

@[simp] theorem height_noWhitespace : noWhitespace.height = 0 := rfl

@[simp] theorem height_function_le {name : String} :
    (function name g).height ≤ n + 1 ↔ g.height ≤ n :=
  Nat.succ_le_succ_iff

@[simp] theorem height_block_le {opener : Char} : (block opener g).height ≤ n + 1 ↔ g.height ≤ n :=
  Nat.succ_le_succ_iff

@[simp] theorem height_oneOf_le : (oneOf gs).height ≤ n ↔ ∀ g ∈ gs, g.height ≤ n :=
  heightAll_le_iff

@[simp] theorem height_seq_le : (seq gs).height ≤ n ↔ ∀ g ∈ gs, g.height ≤ n := heightAll_le_iff

@[simp] theorem height_touching_le : (touching g h).height ≤ n ↔ g.height ≤ n ∧ h.height ≤ n := by
  simp [touching]

@[simp] theorem height_optional : (optional g).height = g.height := rfl

@[simp] theorem height_many : (many g).height = g.height := rfl

@[simp] theorem height_atLeastOne : (atLeastOne g).height = g.height := rfl

@[simp] theorem height_between (least greatest : Nat) :
    (between g least greatest).height = g.height := rfl

@[simp] theorem height_commaList (least : Nat) : (commaList g least).height = g.height := rfl

end

/-! ## What a grammar matches is no deeper than the grammar -/

theorem depthAll_le_of_takes {g : Grammar} {vs : List Value} {n : Nat}
    (takes : g.Takes (·.depth ≤ n)) (matched : g.matchesAll vs) : Value.depthAll vs ≤ n := by
  rw [Value.depthAll_le_iff]
  intro v listed
  have covered := (matchesAll_iff_covers_span g vs).mp matched
  rcases (takes_search g takes).of_covers covered v listed with white | shallow
  · exact Value.depth_le_of_token (Value.token_of_isWhitespace white) n
  · exact shallow

theorem depth_of_argumentsOf? {name : String} {v : Value} {vs : List Value}
    (inside : vs ∈ argumentsOf? name v) : v.depth = 1 + Value.depthAll vs := by
  obtain ⟨n, rfl⟩ := eq_function_of_argumentsOf? inside
  rfl

theorem depth_of_contentsOf? {opener : Char} {v : Value} {vs : List Value}
    (inside : vs ∈ contentsOf? opener v) : v.depth = 1 + Value.depthAll vs := by
  rw [eq_block_of_contentsOf? inside]
  rfl

mutual

/-- **No value of a match is deeper than the grammar.** -/
theorem takes_depth : (g : Grammar) → {n : Nat} → g.height ≤ n → g.Takes (·.depth ≤ n)
  | keyword _, n, _ => fun v _ h => Value.depth_le_of_token (token_of_acceptsKeyword v h) n
  | token _ _, n, _ => fun v _ h => Value.depth_le_of_token (token_of_acceptsToken v h) n
  | customProperty, n, _ =>
      fun v _ h => Value.depth_le_of_token (token_of_acceptsCustomProperty v h) n
  | delim _, n, _ => fun v _ h => Value.depth_le_of_token (token_of_acceptsDelim v h) n
  | whitespace _, _, _ | noWhitespace, _, _ => trivial
  | function _ g, n + 1, h => by
      rintro v - ⟨vs, inside, matched⟩
      have shallow := depthAll_le_of_takes (takes_depth g (Nat.le_of_succ_le_succ h)) matched
      have depth := depth_of_argumentsOf? inside
      show v.depth ≤ n + 1
      omega
  | block _ g, n + 1, h => by
      rintro v - ⟨vs, inside, matched⟩
      have shallow := depthAll_le_of_takes (takes_depth g (Nat.le_of_succ_le_succ h)) matched
      have depth := depth_of_contentsOf? inside
      show v.depth ≤ n + 1
      omega
  | oneOf gs, _, h | anyOrder _ gs, _, h => allTake_depth gs h
  | inOrder _ gs, n, h =>
      ⟨fun _ _ comma => Value.depth_le_of_token (Value.token_of_isComma comma) n,
        allTake_depth gs h⟩
  | repeated _ g, n, h =>
      ⟨fun _ _ comma => Value.depth_le_of_token (Value.token_of_isComma comma) n, takes_depth g h⟩

theorem allTake_depth : (gs : List Grammar) → {n : Nat} → heightAll gs ≤ n →
    allTake (·.depth ≤ n) gs
  | [], _, _ => trivial
  | _ :: gs, _, h =>
      ⟨takes_depth _ (Nat.le_trans (Nat.le_max_left _ _) h),
        allTake_depth gs (Nat.le_trans (Nat.le_max_right _ _) h)⟩

end

theorem depthAll_le_height {g : Grammar} {vs : List Value} (matched : g.matchesAll vs) :
    Value.depthAll vs ≤ g.height :=
  depthAll_le_of_takes (takes_depth g (Nat.le_refl _)) matched

end Grammar

end CssSieve
