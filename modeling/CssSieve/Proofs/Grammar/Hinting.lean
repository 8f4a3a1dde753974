import CssSieve.Proofs.Grammar.Faulting

/-!
# What hints say

A hint that matching leaves behind is true, and speaks of the list that is matched. The part of the
grammar that it comes from does not stand inside a function or block, and was tried where what
stands before it had been matched (`Tries`). There it found a function or block whose contents do
not match, or it was repeated too few times (`Raises`). What is noted while contents are matched
never shows: with nothing noted there at all, the hints are the same (`muted_eq`).
-/

namespace CssSieve

/-- The search, with nothing noted. -/
def Search.mute (s : Search) : Search := fun values start => ⟨(s values start).ends, ∅⟩

namespace Grammar

/-! ## Contents that note nothing -/

mutual

/-- The search of a grammar, with nothing noted while the contents of functions and blocks are
matched. -/
def muted : Grammar → Search
  | keyword words => Search.one (acceptsKeyword words)
  | token kind test => Search.one (acceptsToken kind test)
  | customProperty => Search.one acceptsCustomProperty
  | delim chars => Search.one (acceptsDelim chars)
  | whitespace required => Search.whitespace required
  | noWhitespace => Search.noWhitespace
  | function name g => Search.group (argumentsOf? name) (.arguments name) (Search.mute g.muted)
  | block opener g => Search.group (contentsOf? opener) (.contents opener) (Search.mute g.muted)
  | oneOf gs => Search.oneOf (muteds gs)
  | inOrder commas gs => Search.inOrder commas (muteds gs)
  | repeated m g => Search.repeated m g.muted
  | anyOrder all gs => Search.anyOrder all (muteds gs)

def muteds : List Grammar → List Search
  | [] => []
  | g :: gs => g.muted :: muteds gs

end

mutual

/-- What is noted while contents are matched makes no difference. -/
theorem muted_eq : (g : Grammar) → g.muted = g.search
  | keyword _ | token _ _ | customProperty | delim _ | whitespace _ | noWhitespace => rfl
  | function name g => by
      rw [muted, muted_eq g]
      rfl
  | block opener g => by
      rw [muted, muted_eq g]
      rfl
  | oneOf gs => by
      rw [muted, muteds_eq gs]
      rfl
  | inOrder commas gs => by
      rw [muted, muteds_eq gs]
      rfl
  | repeated m g => by
      rw [muted, muted_eq g]
      rfl
  | anyOrder all gs => by
      rw [muted, muteds_eq gs]
      rfl

theorem muteds_eq : (gs : List Grammar) → muteds gs = searches gs
  | [] => rfl
  | g :: gs => by rw [muteds, muted_eq g, muteds_eq gs, searches]

end

/-! ## What is tried, and what it raises -/

section

variable (values : List Value)

/-- Matching a grammar from one position tries a part of it at another one. The part does not stand
inside a function or block, and what stands before it has been matched. -/
inductive Tries : Grammar → Nat → Grammar → Nat → Prop
  | here {g : Grammar} {start : Nat} : Tries g start g start
  | oneOf {gs : List Grammar} {g h : Grammar} {start p : Nat} :
      g ∈ gs → Tries g start h p → Tries (oneOf gs) start h p
  | inOrder {commas : Bool} {before after : List Grammar} {g h : Grammar}
      {start pos q p : Nat} :
      Span.inOrder commas (before.map fun b => Search.span b.search) values start pos →
      q ∈ afterGap? (commas && !before.isEmpty) values pos → Tries g q h p →
      Tries (inOrder commas (before ++ g :: after)) start h p
  | repeated {m : Multiplier} {g h : Grammar} {start n pos q p : Nat} :
      Search.Climbs m g.search values start n pos →
      q ∈ afterGap? (m.commas && n != 0) values pos → Tries g q h p →
      Tries (repeated m g) start h p
  | anyOrder {all : Bool} {gs : List Grammar} {order : List (Fin (searches gs).length)}
      {i : Fin (searches gs).length} {g h : Grammar} {start pos p : Nat} :
      Search.Arranges (searches gs) values start order pos → i ∉ order → g ∈ gs[i.val]? →
      Tries g pos h p → Tries (anyOrder all gs) start h p

/-- A grammar that is tried at a position raises a fault of its own at an offset. -/
inductive Raises : Grammar → Nat → Nat → Fault → Prop
  | arguments {name n : String} {g : Grammar} {vs : List Value} {p i : Nat} :
      Gap values p i → values[i]? = some (.function n vs) → Text.caseless n name →
      ¬g.matchesAll vs → Raises (function name g) p i (.arguments name)
  | contents {opener : Char} {g : Grammar} {vs : List Value} {p i : Nat} :
      Gap values p i → values[i]? = some (.block opener vs) → ¬g.matchesAll vs →
      Raises (block opener g) p i (.contents opener)
  | repetitions {m : Multiplier} {g : Grammar} {p found offset : Nat} :
      Search.FallsShort m g.search values p found offset →
      Raises (repeated m g) p offset (.repetitions m.least found)

/-- Every fault that the search of a grammar notes was raised by a part that was tried. -/
def FaultsRaised (g : Grammar) : Prop :=
  ∀ start, ∀ entry ∈ (g.search values start).faults.toList,
    ∃ h p, Tries values g start h p ∧ Raises values h p entry.1 entry.2

end

variable {values : List Value}

/-! ## Where faults were raised -/

theorem faultsRaised_of_quiet {g : Grammar} (quiet : ∀ start, (g.search values start).faults = ∅) :
    FaultsRaised values g := by
  intro start entry noted
  rw [quiet start] at noted
  cases noted

theorem faultsRaised_function (name : String) (g : Grammar) :
    FaultsRaised values (function name g) := by
  intro start entry noted
  obtain ⟨v, vs, gap, here, inside, refused, fault⟩ := Search.noted_group noted
  cases v with
  | function n as =>
      obtain ⟨same, rfl⟩ : Text.caseless n name ∧ as = vs := by simpa [argumentsOf?] using inside
      exact ⟨_, start, .here, fault ▸ .arguments gap here same refused⟩
  | token | block => cases inside

theorem faultsRaised_block (opener : Char) (g : Grammar) :
    FaultsRaised values (block opener g) := by
  intro start entry noted
  obtain ⟨v, vs, gap, here, inside, refused, fault⟩ := Search.noted_group noted
  obtain rfl := eq_block_of_contentsOf? inside
  exact ⟨_, start, .here, fault ▸ .contents gap here refused⟩

theorem faultsRaised_oneOf {gs : List Grammar} (h : ∀ g ∈ gs, FaultsRaised values g) :
    FaultsRaised values (oneOf gs) := by
  intro start entry noted
  replace noted : entry ∈ (Search.oneOf (searches gs) values start).faults.toList := noted
  obtain ⟨part, hpart, noted⟩ := Search.noted_oneOf noted
  rw [searches_eq_map] at hpart
  obtain ⟨g, hg, rfl⟩ := List.mem_map.mp hpart
  obtain ⟨raiser, p, tries, raises⟩ := h g hg start entry noted
  exact ⟨raiser, p, .oneOf hg tries, raises⟩

theorem faultsRaised_inOrder {gs : List Grammar} (h : ∀ g ∈ gs, FaultsRaised values g)
    (commas : Bool) : FaultsRaised values (inOrder commas gs) := by
  intro start entry noted
  replace noted : entry ∈ (Search.inOrder commas (searches gs) values start).faults.toList := noted
  obtain ⟨before, part, after, parts, pos, reached, q, hq, noted⟩ := Search.noted_inOrder noted
  rw [searches_eq_map] at parts
  obtain ⟨front, rest, rfl, rfl, others⟩ := List.map_eq_append_iff.mp parts
  obtain ⟨g, back, rfl, rfl, rfl⟩ := List.map_eq_cons_iff.mp others
  obtain ⟨raiser, p, tries, raises⟩ := h g (by simp) q entry noted
  rw [List.map_map] at reached
  rw [List.isEmpty_map] at hq
  exact ⟨raiser, p, .inOrder reached hq tries, raises⟩

theorem faultsRaised_repeated {g : Grammar} (h : FaultsRaised values g) (m : Multiplier) :
    FaultsRaised values (repeated m g) := by
  intro start entry noted
  rcases Search.noted_repeated (forward_search g) noted with
    ⟨n, pos, climbs, q, hq, noted⟩ | ⟨found, short, fault⟩
  · obtain ⟨raiser, p, tries, raises⟩ := h q entry noted
    exact ⟨raiser, p, .repeated climbs hq tries, raises⟩
  · exact ⟨_, start, .here, fault ▸ .repetitions short⟩

theorem faultsRaised_anyOrder {gs : List Grammar} (h : ∀ g ∈ gs, FaultsRaised values g)
    (all : Bool) : FaultsRaised values (anyOrder all gs) := by
  intro start entry noted
  replace noted : entry ∈ (Search.anyOrder all (searches gs) values start).faults.toList := noted
  obtain ⟨order, pos, i, arranged, unused, noted⟩ := Search.keeps_faults_anyOrder.kept entry noted
  have here : gs[i.val]?.map search = some (searches gs)[i] := by
    rw [← List.getElem?_map, ← searches_eq_map]
    exact List.getElem?_eq_getElem i.isLt
  obtain ⟨g, listed, same⟩ := Option.map_eq_some_iff.mp here
  rw [← same] at noted
  obtain ⟨raiser, p, tries, raises⟩ := h g (List.mem_of_getElem? listed) pos entry noted
  exact ⟨raiser, p, .anyOrder arranged unused listed tries, raises⟩

mutual

theorem faultsRaised : (g : Grammar) → FaultsRaised values g
  | keyword _ => faultsRaised_of_quiet (Search.faults_one _ values)
  | token _ _ => faultsRaised_of_quiet (Search.faults_one _ values)
  | customProperty => faultsRaised_of_quiet (Search.faults_one _ values)
  | delim _ => faultsRaised_of_quiet (Search.faults_one _ values)
  | whitespace required => faultsRaised_of_quiet (Search.faults_whitespace required values)
  | noWhitespace => faultsRaised_of_quiet (Search.faults_noWhitespace values)
  | function name g => faultsRaised_function name g
  | block opener g => faultsRaised_block opener g
  | oneOf gs => faultsRaised_oneOf (faultsRaisedAll gs)
  | inOrder commas gs => faultsRaised_inOrder (faultsRaisedAll gs) commas
  | repeated m g => faultsRaised_repeated (faultsRaised g) m
  | anyOrder all gs => faultsRaised_anyOrder (faultsRaisedAll gs) all

theorem faultsRaisedAll : (gs : List Grammar) → ∀ g ∈ gs, FaultsRaised values g
  | [] => by simp
  | g :: gs => List.forall_mem_cons.mpr ⟨faultsRaised g, faultsRaisedAll gs⟩

end

/-! ## Where in the list -/

theorem Search.Arranges.le {parts : List Search} (forward : ∀ part ∈ parts, part.Forward)
    {start pos : Nat} {order : List (Fin parts.length)}
    (arranged : Search.Arranges parts values start order pos) : start ≤ pos := by
  induction arranged with
  | nothing => exact Nat.le_refl start
  | @use order pos e i _ _ he _ ih =>
      have further := forward parts[i] (List.getElem_mem i.isLt) values pos e he
      omega

theorem le_of_afterGap? {comma : Bool} {pos q : Nat} (h : q ∈ afterGap? comma values pos) :
    pos ≤ q := by
  cases comma with
  | false => exact Nat.le_of_eq (by simpa [afterGap?] using h)
  | true => exact Nat.le_of_lt (Span.one_advances (afterComma?_eq_some_iff.mp h)).1

theorem Tries.le {g h : Grammar} {start p : Nat} (tries : Tries values g start h p) :
    start ≤ p := by
  induction tries with
  | here => exact Nat.le_refl _
  | oneOf _ _ ih => exact ih
  | @inOrder commas before _ _ _ start pos q _ reached gap _ ih =>
      have moved : pos = start ∨ start < pos ∧ pos ≤ values.length := by
        refine Span.forward_inOrder ?_ commas reached
        intro span hspan
        obtain ⟨b, -, rfl⟩ := List.mem_map.mp hspan
        exact (forward_search b).span
      have := le_of_afterGap? gap
      omega
  | @repeated _ g _ _ _ _ _ _ climbs gap _ ih =>
      have moved := climbs.add_le (forward_search g)
      have := le_of_afterGap? gap
      omega
  | anyOrder arranged _ _ _ ih =>
      exact Nat.le_trans (Search.Arranges.le (forward_searches _) arranged) ih

theorem Raises.within {h : Grammar} {p offset : Nat} {fault : Fault}
    (raises : Raises values h p offset fault) : p ≤ offset ∧ offset ≤ values.length := by
  cases raises with
  | arguments gap here | contents gap here =>
      obtain ⟨inside, -⟩ := List.getElem?_eq_some_iff.mp here
      exact ⟨gap.1, Nat.le_of_lt inside⟩
  | @repetitions m g _ _ _ short => exact short.within (forward_search g)

/-- **Hints are true.** A hint in a fresh record lies between the start and the end of the values.
It was raised there by a part of the grammar that was tried and does not stand inside a function or
block: a function or block at the offset has contents that do not match, or the part was repeated as
often as the hint says and not as often as it has to be. What is noted while contents are matched
makes no difference to the hints. -/
theorem hints_truthful (g : Grammar) (values : List Value) (start : Nat) :
    let hints := ((g.threaded values start).run ∅).2
    (∀ hint ∈ hints.toList,
        start ≤ hint.1 ∧ hint.1 ≤ values.length ∧
          ∃ h p fault, Tries values g start h p ∧ Raises values h p hint.1 fault ∧
            fault.hint = hint.2) ∧
      hints = (∅ : Furthest Hint) ++ (g.muted values start).faults.map Fault.hint := by
  intro hints
  have same : hints = (∅ : Furthest Hint) ++ (g.search values start).faults.map Fault.hint :=
    congrArg Prod.snd (run_threaded g values start ∅)
  refine ⟨?_, by rw [same, muted_eq]⟩
  intro hint noted
  rw [same] at noted
  obtain ⟨fault, raised, spelled⟩ :
      ∃ fault, (hint.1, fault) ∈ (g.search values start).faults.toList ∧ fault.hint = hint.2 := by
    rcases Furthest.mem_toList_append noted with nothing | mapped
    · cases nothing
    · obtain ⟨here, listed⟩ := Furthest.mem_toList.mp mapped
      obtain ⟨fault, kept, spelled⟩ := List.mem_map.mp listed
      exact ⟨fault, Furthest.mem_toList.mpr ⟨here, kept⟩, spelled⟩
  obtain ⟨h, p, tries, raises⟩ := faultsRaised g start _ raised
  have before := tries.le
  have within := raises.within
  exact ⟨Nat.le_trans before within.1, within.2, h, p, fault, tries, raises, spelled⟩

/-- A repetition behind a comma is counted when it is empty: white space, a comma and nothing behind
it are two repetitions of white space that may be missing, and no two of them are not empty. -/
theorem empty_repetition_is_counted :
    let space : Grammar := whitespace false
    let values : List Value := [.token .whitespace, .token .comma]
    (((commaBetween space 3 3).threaded values 0).run ∅).2.toList =
        [(2, ⟨.missingRequiredRepetition, "expected at least 3 repetitions, found 2"⟩)] ∧
      ¬∃ start e, Span.inOrder true (List.replicate 2 (Search.span space.search).nonempty) values
        start e := by
  intro space values
  refine ⟨by decide +kernel, ?_⟩
  rintro ⟨start, e, m, -, n, ⟨q, ⟨i, -, ⟨v, hv, isComma⟩, rfl⟩, found, further⟩, -⟩
  have at_comma : i = 1 := by
    match i with
    | 0 =>
        cases hv
        cases isComma
    | 1 => rfl
    | _ + 2 => cases hv
  subst at_comma
  -- nothing but an empty match is left behind the comma
  have nothing_left : space.ends values 2 = [2] := by decide +kernel
  exact further (List.mem_singleton.mp (nothing_left ▸ found))

end Grammar

end CssSieve
