import CssSieve.Proofs.Grammar.Widening
import CssSieve.Proofs.Registry.Refinement

/-!
# Wider registries

A registry is `Within` another if every property that it knows is known to the other with a wider
grammar; some properties may be left out of the comparison. Registries stand `Alongside` each other
if they know the same properties besides, as those do that are made from the same names. Putting in
wider grammars gives a wider registry, and adding properties that are new even `Keeps` every grammar
as it is.
-/

namespace CssSieve

open Grammar

/-- Two entries for one property, the second with the wider grammar. -/
def EntryWithin (a b : String × Grammar) : Prop := a.1 = b.1 ∧ a.2.Within b.2

@[gcongr]
theorem entryWithin_mk {name : String} {g h : Grammar} (within : g.Within h) :
    EntryWithin (name, g) (name, h) :=
  ⟨rfl, within⟩

@[refl]
theorem EntryWithin.refl (a : String × Grammar) : EntryWithin a a := ⟨rfl, Within.refl a.2⟩

@[refl]
theorem forall₂_entryWithin_refl (as : List (String × Grammar)) :
    List.Forall₂ EntryWithin as as :=
  List.forall₂_same.mpr fun a _ => EntryWithin.refl a

@[gcongr]
theorem forall₂_entryWithin_cons {a b : String × Grammar} {as bs : List (String × Grammar)}
    (first : EntryWithin a b) (rest : List.Forall₂ EntryWithin as bs) :
    List.Forall₂ EntryWithin (a :: as) (b :: bs) :=
  .cons first rest

@[gcongr]
theorem forall₂_entryWithin_map {α : Type} {f f' : α → String × Grammar} {l : List α}
    (within : ∀ x, EntryWithin (f x) (f' x)) : List.Forall₂ EntryWithin (l.map f) (l.map f') :=
  forall₂_map within

theorem exists_mem_of_within {as bs : List (String × Grammar)}
    (within : List.Forall₂ EntryWithin as bs) {b : String × Grammar} (hb : b ∈ bs) :
    ∃ g, (b.1, g) ∈ as ∧ g.Within b.2 := by
  induction within with
  | nil => cases hb
  | @cons a _ _ _ first _ ih =>
      rcases List.mem_cons.mp hb with rfl | hb
      · exact ⟨a.2, first.1 ▸ List.mem_cons_self, first.2⟩
      · obtain ⟨g, hg, wider⟩ := ih hb
        exact ⟨g, List.mem_cons_of_mem a hg, wider⟩

theorem names_eq_of_within {as bs : List (String × Grammar)}
    (within : List.Forall₂ EntryWithin as bs) : as.map (·.1) = bs.map (·.1) := by
  induction within with
  | nil => rfl
  | cons first _ ih => rw [List.map_cons, List.map_cons, first.1, ih]

namespace Registry

/-- Every property of the one registry, apart from some, is known to the other with a wider
grammar. -/
def Within (except : List String) (r s : Registry) : Prop :=
  ∀ name, Text.lower name ∉ except → ∀ g ∈ r.get? name, ∃ h ∈ s.get? name, g.Within h

/-- Every property of the one registry is known to the other with the same grammar. -/
def Keeps (r s : Registry) : Prop := ∀ name, ∀ g ∈ r.get? name, g ∈ s.get? name

variable {except : List String} {r s t : Registry} {batch : List (String × Grammar)}

theorem Within.trans (first : Within except r s) (second : Within except s t) :
    Within except r t := by
  intro name compared g hg
  obtain ⟨h, hh, wider⟩ := first name compared g hg
  obtain ⟨k, hk, widest⟩ := second name compared h hh
  exact ⟨k, hk, wider.trans widest⟩

theorem Keeps.within (keeps : Keeps r s) (except : List String) : Within except r s := by
  intro name _ g hg
  exact ⟨g, keeps name g hg, .refl g⟩

theorem Keeps.trans (first : Keeps r s) (second : Keeps s t) : Keeps r t := by
  intro name g hg
  exact second name g (first name g hg)

/-- Grammars that are wider than those they replace. -/
theorem within_insertAll (within : ∀ e ∈ batch, Text.lower e.1 ∉ except →
    ∀ g ∈ r.get? e.1, g.Within e.2) : Within except r (r.insertAll batch) := by
  intro name compared g hg
  rw [NameTable.get?_insertAll]
  cases found : batch.reverse.find? (Text.lower ·.1 == Text.lower name) with
  | none => exact ⟨g, hg, .refl g⟩
  | some e =>
      have he : e ∈ batch := List.mem_reverse.mp (List.mem_of_find?_eq_some found)
      have same : Text.lower e.1 = Text.lower name := by simpa using List.find?_some found
      have hg : g ∈ r.get? e.1 := by rwa [NameTable.get?_congr same]
      exact ⟨e.2, rfl, within e he (same ▸ compared) g hg⟩

/-! ## Registries alongside each other -/

/-- The registries know the same properties, and the second knows them with wider grammars. -/
def Alongside (r s : Registry) : Prop :=
  ∀ name, Option.Rel Grammar.Within (r.get? name) (s.get? name)

section

variable {as bs : List (String × Grammar)}

theorem Alongside.insert (h : Alongside r s) (name : String) {g k : Grammar}
    (within : g.Within k) : Alongside (r.insert name g) (s.insert name k) := by
  intro other
  rw [NameTable.get?_insert, NameTable.get?_insert]
  split
  · exact .some within
  · exact h other

theorem Alongside.insertAll (h : Alongside r s) (within : List.Forall₂ EntryWithin as bs) :
    Alongside (r.insertAll as) (s.insertAll bs) := by
  induction within generalizing r s with
  | nil => exact h
  | @cons a b _ _ first _ ih =>
      obtain ⟨name, g⟩ := a
      obtain ⟨_, k⟩ := b
      obtain ⟨rfl, wider⟩ := first
      exact ih (h.insert name wider)

theorem alongside_ofList (within : List.Forall₂ EntryWithin as bs) :
    Alongside (.ofList as) (.ofList bs) := by
  have nothing : Alongside ∅ ∅ := fun name => .none
  exact nothing.insertAll within

theorem Alongside.within (h : Alongside r s) (except : List String) : Within except r s := by
  intro name _ g hg
  have both := h name
  rw [Option.mem_def.mp hg] at both
  generalize s.get? name = other at both ⊢
  cases both with
  | some wider => exact ⟨_, rfl, wider⟩

end

/-! ## Additions -/

theorem keeps_add (added : r.add batch = .ok () s) : Keeps r s := by
  obtain ⟨new, rfl⟩ := add_eq_ok_iff.mp added
  intro name g hg
  have others : ∀ e ∈ batch, Text.lower e.1 ≠ Text.lower name := by
    intro e he same
    have unknown : Text.lower name ∉ r.toMap := same ▸ new.2 e he
    rw [r.get?_eq_lookup, Finmap.lookup_eq_none.mpr unknown] at hg
    cases hg
  rwa [NameTable.get?_insertAll_of_not_mem others]

theorem extendAll_cons_of_ok {p : Primitives} {label : String} {e : Extension}
    {extensions : List (String × Extension)} (applied : e r p = .ok () s) :
    (r.extendAll p ((label, e) :: extensions)).1 = (s.extendAll p extensions).1 := by
  rw [extendAll, extendOrWarn, applied]

/-- What every extension keeps up, also where it is left out, all of them keep up. -/
theorem extendAll_induction {p : Primitives} {extensions : List (String × Extension)}
    {holds : Registry → Prop} (start : holds r)
    (step : ∀ e ∈ extensions, ∀ r s, holds r → e.2 r p = .ok () s → holds s) :
    holds (r.extendAll p extensions).1 := by
  induction extensions generalizing r with
  | nil => exact start
  | cons e extensions ih =>
      obtain ⟨first, others⟩ := List.forall_mem_cons.mp step
      have next : holds (r.extendOrWarn p e.1 e.2).1 := by
        rw [extendOrWarn]
        cases applied : e.2 r p with
        | ok _ s => exact first r s start applied
        | error _ _ => exact start
      exact ih next others

theorem keeps_extendAll {p : Primitives} {extensions : List (String × Extension)}
    (keeps : ∀ e ∈ extensions, ∀ r s, e.2 r p = .ok () s → Keeps r s) (r : Registry) :
    Keeps r (r.extendAll p extensions).1 := by
  apply extendAll_induction
  · intro name g hg
    exact hg
  · intro e listed t s kept applied
    exact kept.trans (keeps e listed t s applied)

end Registry

end CssSieve
