import CssSieve.Proofs.Registry.Refinement
import CssSieve.Proofs.Registry.Widening

/-!
# Extending a registry twice

What an extension does is put down in its `Form`: it puts grammars in, or it adds properties that
have to be new, which may take the grammar of another one. An extension fails if it is refused, and
then nothing of it is done. It is settled in a registry that it leaves as it is; each is settled
behind itself and stays so behind others that keep `Apart` from it. So extensions that keep apart
are all settled behind the last, and applying them again changes nothing, whatever registry they
start from.
-/

namespace CssSieve

open Text (lower)
open GrammarMap (New)

namespace Registry

variable {r s : Registry} {p : Primitives} {batch others : List (String × Grammar)} {name : String}

/-! ## Putting in a second time -/

theorem insertAll_insertAll : (r.insertAll batch).insertAll batch = r.insertAll batch := by
  apply NameTable.eq_of_get?
  intro name
  rw [NameTable.get?_insertAll, NameTable.get?_insertAll, ← Option.or_assoc, Option.or_self]

/-- The last entry of a name, if there is one. -/
theorem get?_insertAll_cases (batch : List (String × Grammar)) (name : String) :
    (∃ e ∈ batch, lower e.1 = lower name ∧ ∀ r : Registry,
        (r.insertAll batch).get? name = some e.2) ∨
      (∀ e ∈ batch, lower e.1 ≠ lower name) ∧ ∀ r : Registry,
        (r.insertAll batch).get? name = r.get? name := by
  cases found : batch.reverse.find? (lower ·.1 == lower name) with
  | some e =>
      refine Or.inl ⟨e, List.mem_reverse.mp (List.mem_of_find?_eq_some found), ?_, fun r => ?_⟩
      · simpa using List.find?_some found
      · rw [NameTable.get?_insertAll, found]
        rfl
  | none =>
      have others : ∀ e ∈ batch, lower e.1 ≠ lower name := by simpa using found
      exact Or.inr ⟨others, fun r => NameTable.get?_insertAll_of_not_mem others⟩

/-- Batches without a common name may be put in in either order. -/
theorem insertAll_comm
    (apart : ∀ e ∈ batch, ∀ d ∈ others, lower e.1 ≠ lower d.1) :
    (r.insertAll others).insertAll batch = (r.insertAll batch).insertAll others := by
  apply NameTable.eq_of_get?
  intro name
  rcases get?_insertAll_cases batch name with ⟨e, he, named, found⟩ | ⟨-, kept⟩
  · rw [found, NameTable.get?_insertAll_of_not_mem, found]
    intro d hd same
    exact apart e he d hd (named.trans same.symm)
  · rw [kept]
    rcases get?_insertAll_cases others name with ⟨d, -, -, found⟩ | ⟨-, kept'⟩
    · rw [found, found]
    · rw [kept', kept', kept]

/-- A batch that is put in without a difference is so too where more is known. -/
theorem insertAll_of_keeps (keeps : Keeps r s) (settled : r.insertAll batch = r) :
    s.insertAll batch = s := by
  apply NameTable.eq_of_get?
  intro name
  rcases get?_insertAll_cases batch name with ⟨e, -, -, found⟩ | ⟨-, kept⟩
  · have known : r.get? name = some e.2 := by rw [← found r, settled]
    rw [found, keeps name e.2 known]
  · exact kept s

/-! ## Names -/

theorem contains_insertAll :
    (r.insertAll batch).contains name ↔
      (∃ e ∈ batch, lower e.1 = lower name) ∨ r.contains name := by
  rw [NameTable.contains, NameTable.contains]
  rcases get?_insertAll_cases batch name with ⟨e, he, named, found⟩ | ⟨others, kept⟩
  · rw [found]
    exact iff_of_true rfl (Or.inl ⟨e, he, named⟩)
  · rw [kept]
    constructor
    · exact Or.inr
    · rintro (⟨e, he, named⟩ | known)
      · exact absurd named (others e he)
      · exact known

/-- A batch is refused if one of its names is known. -/
theorem add_eq_error_iff (distinct : (batch.map (lower ·.1)).Nodup) :
    (∃ e s, r.add batch = .error e s) ↔ ∃ e ∈ batch, r.contains e.1 := by
  constructor
  · rintro ⟨e, s, refused⟩
    by_contra unknown
    have new : New r.toMap batch :=
      ⟨distinct, fun d hd known => unknown ⟨d, hd, (r.contains_iff_mem d.1).mpr known⟩⟩
    rw [add_eq_ok_iff.mpr ⟨new, rfl⟩] at refused
    cases refused
  · rintro ⟨d, hd, known⟩
    cases result : r.add batch with
    | error e s => exact ⟨e, s, rfl⟩
    | ok _ s =>
        have new := (add_eq_ok_iff.mp result).1
        exact absurd ((r.contains_iff_mem d.1).mp known) (new.2 d hd)

/-- Behind the last extension but one, the last is applied. -/
theorem extendAll_concat (front : List (String × Extension)) (label : String) (e : Extension) :
    (r.extendAll p (front ++ [(label, e)])).1 =
      ((r.extendAll p front).1.extendOrWarn p label e).1 := by
  induction front generalizing r with
  | nil => rfl
  | cons f front ih => exact ih

end Registry

namespace Extension

/-! ## What an extension does -/

/-- The form of an extension. -/
inductive Form where
  /-- Grammars are put in, whatever was there before. -/
  | replace (batch : Primitives → List (String × Grammar))
  /-- Properties are added, all of which have to be new. -/
  | add (batch : Primitives → List (String × Grammar))
  /-- A new property is added with a grammar that is made from that of another property, which has
  to be known. -/
  | derive (source name : String) (make : Grammar → Grammar)

namespace Form

/-- The extension of a form. -/
def extension : Form → Extension
  | replace batch, r, p => .ok () (r.insertAll (batch p))
  | add batch, r, p => r.add (batch p)
  | derive source name make, r, _ =>
    match r.require source with
    | .ok g => r.add [(name, make g)]
    | .error e => .error e r

/-- The extensions of labelled forms. -/
def extensions (forms : List (String × Form)) : List (String × Extension) :=
  forms.map fun f => (f.1, f.2.extension)

/-- The names that an extension puts in or adds. -/
def names (p : Primitives) : Form → List String
  | replace batch | add batch => (batch p).map (·.1)
  | derive _ name _ => [name]

/-- The names that have to be new. -/
def added (p : Primitives) : Form → List String
  | replace _ => []
  | add batch => (batch p).map (·.1)
  | derive _ name _ => [name]

/-- The names that have to be known. -/
def needed : Form → List String
  | replace _ | add _ => []
  | derive source _ _ => [source]

/-- A name that has to be new is known, or one that has to be known is missing. -/
def Refused (r : Registry) (p : Primitives) (form : Form) : Prop :=
  (∃ name ∈ form.added p, r.contains name) ∨ ∃ name ∈ form.needed, ¬r.contains name

/-- No name is put in or added twice. -/
def Distinct (p : Primitives) (form : Form) : Prop := ((form.names p).map lower).Nodup

/-- The extension leaves the registry as it is. -/
def Settled (r : Registry) (p : Primitives) : Form → Prop
  | replace batch => r.insertAll (batch p) = r
  | add batch => batch p = [] ∨ (add batch).Refused r p
  | derive source name make => (derive source name make).Refused r p

/-- Of two forms, the second puts in or adds nothing that the first puts in, adds or needs. -/
def Apart (p : Primitives) (form next : Form) : Prop :=
  ∀ name ∈ form.needed ++ form.names p, ∀ other ∈ next.names p, lower name ≠ lower other

variable {r s : Registry} {p : Primitives} {form next : Form} {forms : List (String × Form)}

theorem added_subset_names : form.added p ⊆ form.names p := by
  cases form with
  | replace batch => exact List.nil_subset _
  | add batch => exact List.Subset.refl _
  | derive source name make => exact List.Subset.refl _

theorem derive_eq_ok {source name : String} {make : Grammar → Grammar} :
    (derive source name make).extension r p = .ok () s ↔
      ∃ g, r.get? source = some g ∧ r.add [(name, make g)] = .ok () s := by
  rw [extension, Registry.require]
  cases r.get? source with
  | none =>
      refine iff_of_false ?_ (by simp)
      intro applied
      cases applied
  | some g =>
      constructor
      · exact fun added => ⟨g, rfl, added⟩
      · rintro ⟨_, ⟨⟩, added⟩
        exact added

/-- An extension fails exactly if it is refused. -/
theorem extension_eq_error_iff (distinct : form.Distinct p) :
    (∃ e s, form.extension r p = .error e s) ↔ form.Refused r p := by
  cases form with
  | replace batch => exact iff_of_false nofun (by simp [Refused, added, needed])
  | add batch =>
      have lowered : ((batch p).map (lower ·.1)).Nodup := by
        rw [Distinct, names, List.map_map] at distinct
        exact distinct
      exact (Registry.add_eq_error_iff lowered).trans (by simp [Refused, added, needed])
  | derive source name make =>
      have alone (g : Grammar) : (∃ e s, r.add [(name, make g)] = .error e s) ↔ r.contains name :=
        (Registry.add_eq_error_iff (by simp)).trans (by simp)
      rw [extension, Registry.require]
      cases found : r.get? source with
      | none => exact iff_of_true ⟨_, _, rfl⟩ (by simp [Refused, needed, NameTable.contains, found])
      | some g =>
          refine (alone g).trans ?_
          simp [Refused, added, needed, NameTable.contains, found]

/-- An extension that fails hands the registry back as it was. -/
theorem eq_of_extension_error {e : RegistryError} (failed : form.extension r p = .error e s) :
    s = r := by
  cases form with
  | replace batch => cases failed
  | add batch => exact Registry.eq_of_add_error failed
  | derive source name make =>
      rw [extension] at failed
      cases found : r.require source with
      | error missing =>
          rw [found] at failed
          cases failed
          rfl
      | ok g =>
          rw [found] at failed
          exact Registry.eq_of_add_error failed

/-- Whatever its form, an extension that applies puts entries with its names in. -/
theorem eq_insertAll_of_extension (applied : form.extension r p = .ok () s) :
    ∃ batch, batch.map (·.1) = form.names p ∧ s = r.insertAll batch := by
  cases form with
  | replace batch =>
      cases applied
      exact ⟨batch p, rfl, rfl⟩
  | add batch => exact ⟨batch p, rfl, (Registry.add_eq_ok_iff.mp applied).2⟩
  | derive source name make =>
      obtain ⟨g, -, added⟩ := derive_eq_ok.mp applied
      exact ⟨[(name, make g)], rfl, (Registry.add_eq_ok_iff.mp added).2⟩

theorem contains_extension_iff (applied : form.extension r p = .ok () s) {name : String} :
    s.contains name ↔ (∃ n ∈ form.names p, lower n = lower name) ∨ r.contains name := by
  obtain ⟨batch, names, rfl⟩ := eq_insertAll_of_extension applied
  rw [Registry.contains_insertAll, ← names]
  simp

theorem keeps_of_extension (adds : ∀ batch, form ≠ replace batch)
    (applied : form.extension r p = .ok () s) : Registry.Keeps r s := by
  cases form with
  | replace batch => exact absurd rfl (adds batch)
  | add batch => exact Registry.keeps_add applied
  | derive source name make =>
      obtain ⟨g, -, added⟩ := derive_eq_ok.mp applied
      exact Registry.keeps_add added

/-! ## Settled extensions -/

/-- What is refused leaves the registry as it was. -/
theorem extendOrWarn_of_refused (distinct : form.Distinct p) (refused : form.Refused r p)
    (label : String) : (r.extendOrWarn p label form.extension).1 = r := by
  obtain ⟨e, s, failed⟩ := (extension_eq_error_iff distinct).mpr refused
  rw [Registry.extendOrWarn, failed]

theorem extendOrWarn_of_settled (distinct : form.Distinct p) (settled : form.Settled r p)
    (label : String) : (r.extendOrWarn p label form.extension).1 = r := by
  cases form with
  | replace batch => exact settled
  | add batch =>
      rcases settled with empty | refused
      · rw [Registry.extendOrWarn, extension, empty]
        rfl
      · exact extendOrWarn_of_refused distinct refused label
  | derive source name make => exact extendOrWarn_of_refused distinct settled label

/-- All names of an extension that is not refused are known behind it. -/
theorem contains_extendOrWarn (distinct : form.Distinct p) (fits : ¬form.Refused r p)
    (label : String) :
    ∀ name ∈ form.names p, (r.extendOrWarn p label form.extension).1.contains name := by
  intro name named
  rw [Registry.extendOrWarn]
  cases applied : form.extension r p with
  | error e s => exact absurd ((extension_eq_error_iff distinct).mp ⟨e, s, applied⟩) fits
  | ok _ s => exact (contains_extension_iff applied).mpr (Or.inl ⟨name, named, rfl⟩)

/-- Behind itself an extension is settled: it was refused and would be again, or what it would add
is known now. -/
theorem settled_extendOrWarn (distinct : form.Distinct p) (label : String) :
    form.Settled (r.extendOrWarn p label form.extension).1 p := by
  by_cases refused : form.Refused r p
  · rw [extendOrWarn_of_refused distinct refused]
    cases form with
    | replace batch => simp [Refused, added, needed] at refused
    | add batch => exact Or.inr refused
    | derive source name make => exact refused
  · have known := contains_extendOrWarn distinct refused label
    cases form with
    | replace batch => exact Registry.insertAll_insertAll
    | add batch =>
        cases listed : batch p with
        | nil => exact Or.inl listed
        | cons e es =>
            have first : e.1 ∈ (add batch).names p := by simp [names, listed]
            exact Or.inr (Or.inl ⟨e.1, first, known e.1 first⟩)
    | derive source name make =>
        have only : name ∈ (derive source name make).names p := List.mem_singleton_self name
        exact Or.inl ⟨name, only, known name only⟩

theorem Refused.behind (refused : form.Refused r p) (apart : form.Apart p next)
    (applied : next.extension r p = .ok () s) : form.Refused s p := by
  refine refused.imp ?_ ?_
  · rintro ⟨name, new, known⟩
    exact ⟨name, new, (contains_extension_iff applied).mpr (Or.inr known)⟩
  · rintro ⟨name, needed, missing⟩
    refine ⟨name, needed, fun known => ?_⟩
    rcases (contains_extension_iff applied).mp known with ⟨other, named, same⟩ | known
    · exact apart name (List.mem_append_left _ needed) other named same.symm
    · exact missing known

/-- What is settled stays so behind an extension that keeps apart. -/
theorem Settled.behind (settled : form.Settled r p) (apart : form.Apart p next)
    (applied : next.extension r p = .ok () s) : form.Settled s p := by
  cases form with
  | replace batch =>
      -- only another replacement may change what is known; it has no name in common with this one
      cases next with
      | replace others =>
          cases applied
          have no_common : ∀ e ∈ batch p, ∀ d ∈ others p, lower e.1 ≠ lower d.1 :=
            fun e he d hd => apart e.1 (List.mem_map_of_mem he) d.1 (List.mem_map_of_mem hd)
          have swapped := Registry.insertAll_comm (r := r) no_common
          exact swapped.trans (congrArg (NameTable.insertAll · (others p)) settled)
      | add others =>
          exact Registry.insertAll_of_keeps (keeps_of_extension (by simp) applied) settled
      | derive source name make =>
          exact Registry.insertAll_of_keeps (keeps_of_extension (by simp) applied) settled
  | add batch => exact settled.imp_right fun refused => refused.behind apart applied
  | derive source name make => exact Refused.behind settled apart applied

/-! ## Extensions one after the other -/

theorem extendAll_induction {holds : Registry → Prop} (start : holds r)
    (step : ∀ f ∈ forms, ∀ r s, holds r → f.2.extension r p = .ok () s → holds s) :
    holds (r.extendAll p (extensions forms)).1 := by
  apply Registry.extendAll_induction start
  intro e he
  obtain ⟨f, hf, rfl⟩ := List.mem_map.mp he
  exact step f hf

/-- No name is ever lost. -/
theorem contains_extendAll (forms : List (String × Form)) {name : String}
    (known : r.contains name) : (r.extendAll p (extensions forms)).1.contains name := by
  let holds (r : Registry) : Prop := r.contains name
  have start : holds r := known
  exact extendAll_induction start fun f _ r s known applied =>
    (contains_extension_iff applied).mpr (Or.inr known)

/-- Forms keep apart if no name stands twice among all that they need, put in or add. -/
theorem apart_of_nodup
    (nodup : (forms.flatMap fun f => (f.2.needed ++ f.2.names p).map lower).Nodup) :
    (∀ f ∈ forms, f.2.Distinct p) ∧ forms.Pairwise fun f g => f.2.Apart p g.2 := by
  obtain ⟨each, disjoint⟩ := List.nodup_flatMap.mp nodup
  constructor
  · intro f hf
    have here := each f hf
    rw [List.map_append] at here
    exact here.of_append_right
  · refine disjoint.imp fun {f g} no_common name named other listed same => ?_
    have inside : lower other ∈ (g.2.needed ++ g.2.names p).map lower :=
      List.mem_map_of_mem (List.mem_append_right _ listed)
    exact no_common (List.mem_map_of_mem named) (same ▸ inside)

/-- Behind the last of extensions that keep apart, each of them is settled. -/
theorem settled_extendAll (distinct : ∀ f ∈ forms, f.2.Distinct p)
    (apart : forms.Pairwise fun f g => f.2.Apart p g.2) (r : Registry) :
    ∀ f ∈ forms, f.2.Settled (r.extendAll p (extensions forms)).1 p := by
  induction forms generalizing r with
  | nil => simp
  | cons f forms ih =>
      obtain ⟨here, others⟩ := List.forall_mem_cons.mp distinct
      obtain ⟨first, rest⟩ := List.pairwise_cons.mp apart
      refine List.forall_mem_cons.mpr ⟨?_, ih others rest _⟩
      -- the first is settled behind itself, and the others keep apart from it
      let holds (r : Registry) : Prop := f.2.Settled r p
      have start : holds (r.extendOrWarn p f.1 f.2.extension).1 := settled_extendOrWarn here f.1
      exact extendAll_induction start fun g hg r s settled applied =>
        settled.behind (first g hg) applied

theorem extendAll_of_settled (distinct : ∀ f ∈ forms, f.2.Distinct p)
    (settled : ∀ f ∈ forms, f.2.Settled r p) : (r.extendAll p (extensions forms)).1 = r := by
  induction forms with
  | nil => rfl
  | cons f forms ih =>
      obtain ⟨here, others⟩ := List.forall_mem_cons.mp distinct
      obtain ⟨first, rest⟩ := List.forall_mem_cons.mp settled
      show ((r.extendOrWarn p f.1 f.2.extension).1.extendAll p (extensions forms)).1 = r
      rw [extendOrWarn_of_settled here first, ih others rest]

/-- Extensions that keep apart change nothing when they are applied again. -/
theorem extendAll_extendAll (distinct : ∀ f ∈ forms, f.2.Distinct p)
    (apart : forms.Pairwise fun f g => f.2.Apart p g.2) (r : Registry) :
    ((r.extendAll p (extensions forms)).1.extendAll p (extensions forms)).1 =
      (r.extendAll p (extensions forms)).1 :=
  extendAll_of_settled distinct (settled_extendAll distinct apart r)

end Form

end Extension

end CssSieve
