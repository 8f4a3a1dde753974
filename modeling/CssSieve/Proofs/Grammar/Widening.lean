import CssSieve.Proofs.Grammar.Advancing
import Mathlib.Logic.Equiv.Fin.Basic
import Mathlib.Tactic.GCongr

/-!
# Wider grammars

One grammar is `Within` another if every end that it reaches, from any start in any list, is reached
by the other too. Every production is monotone in its parts: a grammar becomes wider where a part of
it does, where an alternative is added, and nothing changes where the parts of a group in any order
change places. So whether one grammar is within another can be read off how the two are built, and
no list of values has to be looked at.
-/

namespace CssSieve

/-! ## Lists that are related member by member -/

section

variable {α β : Type} {r : α → α → Prop}

@[gcongr]
theorem forall₂_append {as bs cs ds : List α} (first : List.Forall₂ r as bs)
    (rest : List.Forall₂ r cs ds) : List.Forall₂ r (as ++ cs) (bs ++ ds) :=
  List.rel_append first rest

theorem forall₂_map {f g : β → α} {l : List β} (related : ∀ x, r (f x) (g x)) :
    List.Forall₂ r (l.map f) (l.map g) := by
  rw [List.forall₂_map_left_iff, List.forall₂_map_right_iff, List.forall₂_same]
  intro x _
  exact related x

@[gcongr]
theorem forall₂_flatMap {f g : β → List α} {l : List β}
    (related : ∀ x, List.Forall₂ r (f x) (g x)) :
    List.Forall₂ r (l.flatMap f) (l.flatMap g) := by
  induction l with
  | nil => exact .nil
  | cons x l ih => exact List.rel_append (related x) ih

end

namespace Span

/-- Whatever the one span matches, the other matches too. -/
def Within (s t : Span) : Prop := ∀ ⦃values : List Value⦄ ⦃start e : Nat⦄,
  s values start e → t values start e

variable {s t : Span} {ss ts : List Span}

theorem Within.covers (h : s.Within t) {values : List Value} (covers : s.Covers values) :
    t.Covers values := by
  obtain ⟨e, he, gap⟩ := covers
  exact ⟨e, h he, gap⟩

theorem within_group (h : s.Within t) (inside : Value → Option (List Value)) :
    (group inside s).Within (group inside t) := by
  rintro values start e ⟨i, gap, ⟨v, hv, vs, opened, covers⟩, rfl⟩
  exact ⟨i, gap, ⟨v, hv, vs, opened, h.covers covers⟩, rfl⟩

theorem within_afterGap (h : s.Within t) (commas : Bool) :
    (afterGap commas s).Within (afterGap commas t) := by
  intro values start e he
  cases commas with
  | false => exact h he
  | true =>
      obtain ⟨m, comma, behind⟩ := he
      exact ⟨m, comma, h behind⟩

theorem within_andThen (h : List.Forall₂ Within ss ts) (commas : Bool) :
    (andThen commas ss).Within (andThen commas ts) := by
  intro values start e he
  induction h generalizing start with
  | nil => exact he
  | cons first _ ih =>
      obtain ⟨m, here, rest⟩ := he
      exact ⟨m, within_afterGap first commas here, ih rest⟩

theorem within_inOrder (h : List.Forall₂ Within ss ts) (commas : Bool) :
    (inOrder commas ss).Within (inOrder commas ts) := by
  intro values start e he
  cases h with
  | nil => exact he
  | cons first others =>
      obtain ⟨m, here, rest⟩ := he
      exact ⟨m, first here, within_andThen others commas rest⟩

/-- Parts in any order may be wider each, and stand in other places. -/
theorem within_anyOrder (place : Fin ss.length ≃ Fin ts.length)
    (h : ∀ i, (ss.get i).Within (ts.get (place i))) (allRequired : Bool) :
    (anyOrder allRequired ss).Within (anyOrder allRequired ts) := by
  rintro values start e ⟨used, nodup, spanned, stops⟩
  refine ⟨used.map place, nodup.map place.injective, ?_, ?_⟩
  · refine within_inOrder ?_ false spanned
    rw [List.map_map, List.forall₂_map_left_iff, List.forall₂_map_right_iff, List.forall₂_same]
    intro i _ values start e he
    exact ⟨h i he.1, he.2⟩
  · cases allRequired with
    | true =>
        intro j unused
        have not_used : place.symm j ∉ used := by
          intro hi
          exact unused (List.mem_map.mpr ⟨_, hi, place.apply_symm_apply j⟩)
        have wider := h (place.symm j) (stops _ not_used)
        rwa [place.apply_symm_apply] at wider
    | false =>
        rcases stops with some_used | ⟨s, hs, he⟩
        · exact Or.inl (by simpa using some_used)
        · obtain ⟨i, hi, rfl⟩ := List.getElem_of_mem hs
          exact Or.inr ⟨_, List.get_mem ts (place ⟨i, hi⟩), h ⟨i, hi⟩ he⟩

end Span

namespace Search

/-- Whatever the one search finds, the other finds too. -/
def Within (s t : Search) : Prop := (span s).Within (span t)

variable {s t : Search} {ss ts : List Search}

theorem within_of_finds {a b : Span} (hs : s.Finds a) (ht : t.Finds b) (h : a.Within b) :
    s.Within t := by
  intro values start e he
  exact (ht values start e).mpr (h ((hs values start e).mp he))

theorem again_mono (h : s.Within t) {m : Multiplier} {values : List Value} {n p e : Nat}
    (he : e ∈ again m s values n p) : e ∈ again m t values n p :=
  (mem_ends_onceMore (finds_span t)).mpr
    (Span.within_afterGap h _ ((mem_ends_onceMore (finds_span s)).mp he))

theorem Climbs.mono (h : s.Within t) {m : Multiplier} {values : List Value} {start n e : Nat}
    (climbs : Climbs m s values start n e) : Climbs m t values start n e := by
  induction climbs with
  | start => exact Climbs.start
  | step _ allowed he progress ih => exact Climbs.step ih allowed (again_mono h he) progress

theorem within_repeated (hs : s.Forward) (ht : t.Forward) (h : s.Within t) (m : Multiplier) :
    (repeated m s).Within (repeated m t) := by
  intro values start e he
  refine (mem_ends_repeated_iff ht).mpr ?_
  rcases (mem_ends_repeated_iff hs).mp he with ⟨n, least, climbs⟩ | ⟨n, allowed, climbs, blank⟩
  · exact Or.inl ⟨n, least, climbs.mono h⟩
  · exact Or.inr ⟨n, allowed, climbs.mono h, again_mono h blank⟩

end Search

namespace Grammar

/-- Whatever the one grammar matches, the other matches too. -/
def Within (g h : Grammar) : Prop := Search.Within g.search h.search

variable {g h : Grammar} {gs hs : List Grammar}

@[refl]
theorem Within.refl (g : Grammar) : g.Within g := by
  intro values start e he
  exact he

@[trans]
theorem Within.trans {k : Grammar} (first : g.Within h) (second : h.Within k) : g.Within k := by
  intro values start e he
  exact second (first he)

theorem Within.matchesAll (within : g.Within h) {values : List Value}
    (matched : g.matchesAll values) : h.matchesAll values := by
  rw [matchesAll_iff_covers_span] at matched ⊢
  exact Span.Within.covers within matched

/-! ## Lists of grammars -/

@[refl]
theorem forall₂_within_refl (gs : List Grammar) : List.Forall₂ Within gs gs :=
  List.forall₂_same.mpr fun g _ => Within.refl g

@[gcongr]
theorem forall₂_within_cons (first : g.Within h) (rest : List.Forall₂ Within gs hs) :
    List.Forall₂ Within (g :: gs) (h :: hs) :=
  .cons first rest

@[gcongr]
theorem forall₂_within_map {α : Type} {f f' : α → Grammar} {l : List α}
    (within : ∀ x, (f x).Within (f' x)) : List.Forall₂ Within (l.map f) (l.map f') :=
  forall₂_map within

/-! ## Productions -/

theorem within_tokenThat {kind : TokenKind} {test test' : Token → Bool}
    (stricter : ∀ t, test t → test' t) : (tokenThat kind test).Within (tokenThat kind test') := by
  refine Search.within_of_finds (Search.one_finds _) (Search.one_finds _) ?_
  rintro values start e ⟨i, gap, ⟨v, hv, accepted⟩, rfl⟩
  refine ⟨i, gap, ⟨v, hv, ?_⟩, rfl⟩
  cases v with
  | token t =>
      simp only [acceptsToken, Option.map_some, Option.getD_some, Bool.and_eq_true] at accepted ⊢
      exact ⟨accepted.1, stricter t accepted.2⟩
  | function | block => cases accepted

theorem acceptsWord_of_subset {words words' : List String} {ident : String}
    (subset : words ⊆ words') (accepted : acceptsWord words ident) : acceptsWord words' ident := by
  by_cases custom : ident.startsWith "--"
  · rw [acceptsWord, if_pos custom] at accepted ⊢
    exact List.contains_iff_mem.mpr (subset (List.contains_iff_mem.mp accepted))
  · rw [acceptsWord, if_neg custom, Text.caselessMem, List.any_eq_true] at accepted ⊢
    obtain ⟨w, listed, same⟩ := accepted
    exact ⟨w, subset listed, same⟩

theorem within_keyword {words words' : List String} (subset : words ⊆ words') :
    (keyword words).Within (keyword words') := by
  refine Search.within_of_finds (Search.one_finds _) (Search.one_finds _) ?_
  rintro values start e ⟨i, gap, ⟨v, hv, accepted⟩, rfl⟩
  refine ⟨i, gap, ⟨v, hv, ?_⟩, rfl⟩
  cases v with
  | token t => cases t <;> first | exact acceptsWord_of_subset subset accepted | cases accepted
  | function | block => cases accepted

@[gcongr]
theorem within_function {name : String} (within : g.Within h) :
    (function name g).Within (function name h) :=
  Search.within_of_finds (Search.group_finds _ _ (Search.finds_span _))
    (Search.group_finds _ _ (Search.finds_span _)) (Span.within_group within _)

@[gcongr]
theorem within_block {opener : Char} (within : g.Within h) :
    (block opener g).Within (block opener h) :=
  Search.within_of_finds (Search.group_finds _ _ (Search.finds_span _))
    (Search.group_finds _ _ (Search.finds_span _)) (Span.within_group within _)

theorem findsAll_searches (gs : List Grammar) :
    Search.FindsAll (searches gs) ((gs.map search).map Search.span) := by
  rw [searches_eq_map]
  exact Search.findsAll_span _

theorem forall₂_spans (within : List.Forall₂ Within gs hs) :
    List.Forall₂ Span.Within ((gs.map search).map Search.span)
      ((hs.map search).map Search.span) := by
  simp only [List.forall₂_map_left_iff, List.forall₂_map_right_iff]
  exact within

/-- What is within an alternative is within all of them together. -/
theorem within_oneOf_of_mem (mem : h ∈ hs) (within : g.Within h) : g.Within (oneOf hs) := by
  refine Search.within_of_finds (Search.finds_span g.search)
    (Search.oneOf_finds (findsAll_searches hs)) ?_
  intro values start e he
  exact ⟨_, List.mem_map_of_mem (List.mem_map_of_mem mem), within he⟩

/-- Alternatives are within what each of them is within. -/
theorem oneOf_within (within : ∀ g ∈ gs, g.Within h) : (oneOf gs).Within h := by
  refine Search.within_of_finds (Search.oneOf_finds (findsAll_searches gs))
    (Search.finds_span h.search) ?_
  rintro values start e ⟨s, hs, he⟩
  obtain ⟨_, hsearch, rfl⟩ := List.mem_map.mp hs
  obtain ⟨g, hg, rfl⟩ := List.mem_map.mp hsearch
  exact within g hg he

theorem oneOf_within_of_subset (subset : gs ⊆ hs) : (oneOf gs).Within (oneOf hs) := by
  apply oneOf_within
  intro g hg
  exact within_oneOf_of_mem (subset hg) (.refl g)

/-- Every grammar of the one list is within some grammar of the other. -/
def EachWithin (gs hs : List Grammar) : Prop := ∀ g ∈ gs, ∃ h ∈ hs, g.Within h

theorem EachWithin.refl (gs : List Grammar) : EachWithin gs gs :=
  fun g hg => ⟨g, hg, .refl g⟩

theorem eachWithin_nil : EachWithin [] hs := by simp [EachWithin]

theorem EachWithin.append {gs' hs' : List Grammar} (first : EachWithin gs hs)
    (rest : EachWithin gs' hs') : EachWithin (gs ++ gs') (hs ++ hs') := by
  intro g hg
  rcases List.mem_append.mp hg with hg | hg
  · obtain ⟨h, hh, within⟩ := first g hg
    exact ⟨h, List.mem_append_left _ hh, within⟩
  · obtain ⟨h, hh, within⟩ := rest g hg
    exact ⟨h, List.mem_append_right _ hh, within⟩

theorem eachWithin_of_forall₂ (within : List.Forall₂ Within gs hs) : EachWithin gs hs := by
  intro g hg
  induction within with
  | nil => cases hg
  | @cons _ h _ hs wider _ ih =>
      rcases List.mem_cons.mp hg with rfl | hg
      · exact ⟨h, List.mem_cons_self, wider⟩
      · obtain ⟨h', hh', within⟩ := ih hg
        exact ⟨h', List.mem_cons_of_mem h hh', within⟩

theorem EachWithin.oneOf (each : EachWithin gs hs) : (oneOf gs).Within (oneOf hs) := by
  apply oneOf_within
  intro g hg
  obtain ⟨h, hh, within⟩ := each g hg
  exact within_oneOf_of_mem hh within

@[gcongr]
theorem within_oneOf (within : List.Forall₂ Within gs hs) : (oneOf gs).Within (oneOf hs) :=
  (eachWithin_of_forall₂ within).oneOf

@[gcongr]
theorem within_inOrder {commas : Bool} (within : List.Forall₂ Within gs hs) :
    (inOrder commas gs).Within (inOrder commas hs) :=
  Search.within_of_finds (Search.inOrder_finds (findsAll_searches gs) commas)
    (Search.inOrder_finds (findsAll_searches hs) commas)
    (Span.within_inOrder (forall₂_spans within) commas)

@[gcongr]
theorem within_repeated {m : Multiplier} (within : g.Within h) :
    (repeated m g).Within (repeated m h) :=
  Search.within_repeated (forward_search g) (forward_search h) within m

/-- Parts in any order may be wider each, and stand in other places. -/
theorem within_anyOrder_of_places {all : Bool} (place : Fin gs.length ≃ Fin hs.length)
    (within : ∀ i, (gs.get i).Within (hs.get (place i))) :
    (anyOrder all gs).Within (anyOrder all hs) := by
  have left : ((gs.map search).map Search.span).length = gs.length := by simp
  have right : hs.length = ((hs.map search).map Search.span).length := by simp
  refine Search.within_of_finds (Search.anyOrder_finds (findsAll_searches gs) all)
    (Search.anyOrder_finds (findsAll_searches hs) all)
    (Span.within_anyOrder ((finCongr left).trans (place.trans (finCongr right))) ?_ all)
  intro i
  have wider := within (finCongr left i)
  simp only [Within, Search.Within] at wider
  simpa using wider

@[gcongr]
theorem within_anyOrder {all : Bool} (within : List.Forall₂ Within gs hs) :
    (anyOrder all gs).Within (anyOrder all hs) := by
  apply within_anyOrder_of_places (finCongr within.length_eq)
  intro i
  exact within.get i.isLt (within.length_eq ▸ i.isLt)

/-! ## Shorthands -/

@[gcongr]
theorem within_optional (within : g.Within h) : (optional g).Within (optional h) :=
  within_repeated within

@[gcongr]
theorem within_many (within : g.Within h) : (many g).Within (many h) :=
  within_repeated within

@[gcongr]
theorem within_atLeastOne (within : g.Within h) : (atLeastOne g).Within (atLeastOne h) :=
  within_repeated within

@[gcongr]
theorem within_between {least greatest : Nat} (within : g.Within h) :
    (between g least greatest).Within (between h least greatest) :=
  within_repeated within

@[gcongr]
theorem within_commaBetween {least greatest : Nat} (within : g.Within h) :
    (commaBetween g least greatest).Within (commaBetween h least greatest) :=
  within_repeated within

@[gcongr]
theorem within_commaList {least : Nat} (within : g.Within h) :
    (commaList g least).Within (commaList h least) :=
  within_repeated within

@[gcongr]
theorem within_seq (within : List.Forall₂ Within gs hs) : (seq gs).Within (seq hs) :=
  within_inOrder within

@[gcongr]
theorem within_commaSeq (within : List.Forall₂ Within gs hs) :
    (commaSeq gs).Within (commaSeq hs) :=
  within_inOrder within

@[gcongr]
theorem within_allOf (within : List.Forall₂ Within gs hs) : (allOf gs).Within (allOf hs) :=
  within_anyOrder within

@[gcongr]
theorem within_someOf (within : List.Forall₂ Within gs hs) : (someOf gs).Within (someOf hs) :=
  within_anyOrder within

/-! ## Lists of one item -/

theorem not_mem_onceMore_of_no_comma {part : Search} {values : List Value}
    (no_comma : ∀ v ∈ values, ¬v.isComma) {pos e : Nat} :
    e ∉ (Search.onceMore part true values pos).ends := by
  rw [Search.mem_ends_onceMore (Search.finds_span part)]
  rintro ⟨_, ⟨i, -, ⟨v, hv, isComma⟩, -⟩, -⟩
  exact no_comma v (List.mem_of_getElem? hv) isComma

/-- Where no comma stands, a list has one item. -/
theorem matchesAll_of_commaList {least : Nat} (some_item : least ≠ 0) {values : List Value}
    (no_comma : ∀ v ∈ values, ¬v.isComma) (matched : (commaList g least).matchesAll values) :
    g.matchesAll values := by
  rw [matchesAll_iff_covers_span] at matched ⊢
  obtain ⟨e, he, gap⟩ := matched
  refine ⟨e, ?_, gap⟩
  have first {n p : Nat} (again : e ∈ Search.again ⟨least, none, true⟩ g.search values n p) :
      n = 0 := by
    cases n with
    | zero => rfl
    | succ n => exact absurd again (not_mem_onceMore_of_no_comma no_comma)
  rcases (Search.mem_ends_repeated_iff (forward_search g)).mp he with
    ⟨n, enough, climbs⟩ | ⟨n, -, climbs, blank⟩
  · cases climbs with
    | start => exact absurd (Nat.le_zero.mp enough) some_item
    | step before _ again _ =>
        obtain rfl := first again
        cases before
        exact again
  · obtain rfl := first blank
    cases climbs
    exact blank

end Grammar

end CssSieve
