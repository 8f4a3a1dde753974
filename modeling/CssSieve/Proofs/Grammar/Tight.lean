import CssSieve.Proofs.Grammar.Language

/-!
# Words without white space inside

A grammar is `Tight` in a language if each of its matches is white space and then a word of the
language, with all the values between the two positions in it. Parts that touch put their words
together. Where white space may stand before a match, it makes no difference whether the match is
looked for in front of that white space or behind it.
-/

namespace CssSieve

variable {values : List Value} {start m p e : Nat} {L M : Language Value}

theorem gap_here (dark : ∀ v ∈ values[start]?, ¬v.isWhitespace) : Gap values start start :=
  ⟨Nat.le_refl start, fun _ low high => absurd low (Nat.not_le.mpr high), dark⟩

theorem Gap.unique (gap : Gap values start m) (gap' : Gap values start e) : m = e :=
  Nat.le_antisymm (gap.le_of_gap gap') (gap'.le_of_gap gap)

namespace Grammar

variable {g h : Grammar} {gs : List Grammar} {kind kind' : Value → Prop}

/-! ## Tight grammars -/

/-- Every match is a word of the language, the white space before it apart. -/
def Tight (g : Grammar) (L : Language Value) : Prop :=
  ∀ ⦃values : List Value⦄ ⦃start e : Nat⦄, Search.span g.search values start e →
    ∃ m, Gap values start m ∧ m ≤ e ∧ slice values m e ∈ L

theorem Tight.mono (tight : g.Tight L) (le : L ≤ M) : g.Tight M := by
  intro values start e found
  obtain ⟨m, gap, before, word⟩ := tight found
  exact ⟨m, gap, before, le word⟩

theorem tight_of_finds_one (finds : Search.Finds g.search (Span.one kind))
    (h : ∀ v, kind v → kind' v) : g.Tight (oneValue kind') := by
  intro values start e found
  obtain ⟨i, gap, ⟨v, here, accepted⟩, rfl⟩ := (finds values start e).mp found
  exact ⟨i, gap, Nat.le_succ i, v, slice_succ here, h v accepted⟩

theorem tight_oneOf (h : ∀ g ∈ gs, g.Tight L) : (oneOf gs).Tight L := by
  intro values start e found
  obtain ⟨g, listed, he⟩ := span_oneOf_iff.mp found
  exact h g listed he

theorem span_noWhitespace_iff : Search.span noWhitespace.search values start e ↔
    e = start ∧ ∀ v ∈ values[start]?, ¬v.isWhitespace :=
  Search.noWhitespace_finds values start e

/-- A word that stands where no white space does begins there. -/
theorem Tight.here (tight : g.Tight L) (dark : ∀ v ∈ values[start]?, ¬v.isWhitespace)
    (found : Search.span g.search values start e) : start ≤ e ∧ slice values start e ∈ L := by
  obtain ⟨m, gap, before, word⟩ := tight found
  obtain rfl : start = m := (gap_here dark).unique gap
  exact ⟨before, word⟩

theorem Tight.touching (first : g.Tight L) (second : h.Tight M) : (touching g h).Tight (L * M) := by
  intro values start e found
  obtain ⟨p, one, rest⟩ := span_seq_cons.mp found
  obtain ⟨p, blank, two⟩ := span_seq_pair.mp rest
  obtain ⟨rfl, dark⟩ := span_noWhitespace_iff.mp blank
  obtain ⟨m, gap, before, word⟩ := first one
  obtain ⟨behind, other⟩ := second.here dark two
  refine ⟨m, gap, Nat.le_trans before behind, ?_⟩
  rw [slice_append before behind]
  exact Language.append_mem_mul word other

/-- A word grows by the words that touch it, one after the other. -/
theorem Tight.extend (tight : g.Tight M) (closed : L * M ≤ L)
    (chain : Relation.ReflTransGen (Search.span (seq [noWhitespace, g]).search values) p e)
    (before : m ≤ p) (word : slice values m p ∈ L) : p ≤ e ∧ slice values m e ∈ L := by
  induction chain with
  | refl => exact ⟨Nat.le_refl p, word⟩
  | tail _ last ih =>
      obtain ⟨behind, grown⟩ := ih
      obtain ⟨_, blank, next⟩ := span_seq_pair.mp last
      obtain ⟨rfl, dark⟩ := span_noWhitespace_iff.mp blank
      obtain ⟨further, more⟩ := tight.here dark next
      refine ⟨Nat.le_trans behind further, ?_⟩
      rw [slice_append (Nat.le_trans before behind) further]
      exact closed (Language.append_mem_mul grown more)

/-! ## White space before a match -/

/-- White space before a match is passed over. -/
def SkipsGaps (g : Grammar) : Prop :=
  ∀ ⦃values : List Value⦄ ⦃start m e : Nat⦄, Gap values start m →
    (Search.span g.search values start e ↔ Search.span g.search values m e)

theorem skipsGaps_of_finds_one (finds : Search.Finds g.search (Span.one kind)) : g.SkipsGaps := by
  intro values start m e gap
  have same (i : Nat) : Gap values start i ↔ Gap values m i := by
    constructor
    · rintro gap'
      obtain rfl := gap.unique gap'
      exact gap_here gap.2.2
    · rintro gap'
      obtain rfl := (gap_here gap.2.2).unique gap'
      exact gap
  refine (finds values start e).trans (Iff.trans ?_ (finds values m e).symm)
  simp only [Span.one, same]

theorem skipsGaps_oneOf (h : ∀ g ∈ gs, g.SkipsGaps) : (oneOf gs).SkipsGaps := by
  intro values start m e gap
  simp only [span_oneOf_iff]
  exact exists_congr fun g => and_congr_right fun listed => h g listed gap

/-- A sequence passes over the white space before it where its first part does. -/
theorem skipsGaps_seq (h : g.SkipsGaps) : (seq (g :: gs)).SkipsGaps := by
  intro values start m e gap
  simp only [span_seq_cons, h gap]

end Grammar

end CssSieve
