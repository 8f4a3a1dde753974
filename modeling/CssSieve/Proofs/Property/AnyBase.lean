import CssSieve.Proofs.Property.Standard
import CssSieve.Proofs.Registry.Extending
import CssSieve.Property.Extended

/-!
# The extensions on any registry

The extensions for style rules are made for the standard properties, but they can be applied to any
registry, in which some of their names may be known and the filters missing. What is said here of
them comes from their forms (`templateForms`) alone: no name stands in two of them, and none needs
what a later one puts in or adds.
-/

namespace CssSieve

namespace Property

open Extension (Form)

/-- The forms of the extensions. What they put in or add is read off the extensions themselves. -/
def templateForms : {forms : List (String × Form) // Form.extensions forms = templateExtensions} :=
  ⟨[("border-background", .replace _), ("sizing-functions", .replace _), ("transforms", .replace _),
      ("transition-behavior", .replace _), ("image-rendering", .add _), ("ruby", .add _),
      ("pointer-events", .add _), ("scroll-spacing", .add _), ("aspect-ratio", .add _),
      ("inset", .add _), ("backdrop-filter", .derive "filter" "backdrop-filter" Grammar.atLeastOne),
      ("content-visibility", .add _)], rfl⟩

/-- The properties that an extension adds, which have to be new. -/
def addedBy : String → List String
  | "image-rendering" => ["image-rendering"]
  | "ruby" => ["ruby-position", "ruby-align"]
  | "pointer-events" => ["pointer-events"]
  | "scroll-spacing" =>
      ["scroll-margin", "scroll-padding"].flatMap fun shorthand =>
        ["-block-end", "-block-start", "-block", "-bottom", "-inline-end", "-inline-start",
          "-inline", "-left", "-right", "-top", ""].map (shorthand ++ ·)
  | "aspect-ratio" => ["aspect-ratio"]
  | "inset" =>
      ["inset", "inset-block", "inset-block-end", "inset-block-start", "inset-inline",
        "inset-inline-end", "inset-inline-start"]
  | "backdrop-filter" => ["backdrop-filter"]
  | "content-visibility" => ["content-visibility"]
  | _ => []

/-- The properties that an extension needs, which have to be known. -/
def neededBy : String → List String
  | "backdrop-filter" => ["filter"]
  | _ => []

/-- Whether an extension cannot be applied: a property that it adds is known, or one that it needs
is missing. -/
def Refused (r : Registry) (label : String) : Prop :=
  (∃ name ∈ addedBy label, r.contains name) ∨ ∃ name ∈ neededBy label, ¬r.contains name

variable {p : Primitives} {r : Registry}

theorem added_templateForms (p : Primitives) :
    ∀ f ∈ templateForms.1, f.2.added p = addedBy f.1 ∧ f.2.needed = neededBy f.1 := by
  simp only [templateForms, List.forall_mem_cons, List.not_mem_nil, false_imp_iff, implies_true,
    and_true]
  refine ⟨?_, ?_, ?_, ?_, ?_, ?_, ?_, ?_, ?_, ?_, ?_, ?_⟩ <;> exact ⟨rfl, rfl⟩

theorem exists_form_of_mem {label : String} {e : Extension}
    (listed : (label, e) ∈ templateExtensions) :
    ∃ form : Form, (label, form) ∈ templateForms.1 ∧ form.extension = e := by
  rw [← templateForms.2] at listed
  obtain ⟨⟨_, form⟩, hf, ⟨⟩⟩ := List.mem_map.mp listed
  exact ⟨form, hf, rfl⟩

theorem refused_iff {label : String} {form : Form} (listed : (label, form) ∈ templateForms.1) :
    form.Refused r p ↔ Refused r label := by
  obtain ⟨added, needed⟩ := added_templateForms p _ listed
  rw [Form.Refused, Refused, added, needed]

/-! ## Names -/

/-- All names of the extensions, which are the same whatever the data types are. -/
def templateNames (p : Primitives) : List String :=
  templateForms.1.flatMap fun f => f.2.needed ++ f.2.names p

theorem templateNames_eq (p : Primitives) : templateNames p = templateNames .nothing := rfl

/-- No name stands twice among those of the extensions. -/
theorem nodup_templateNames (p : Primitives) :
    (templateForms.1.flatMap fun f => (f.2.needed ++ f.2.names p).map Text.lower).Nodup := by
  have small : (templateNames .nothing).all Text.isSmall = true := by decide +kernel
  have as_written : (templateNames .nothing).map Text.lower = templateNames .nothing := by
    refine (List.map_congr_left fun name named => ?_).trans (List.map_id _)
    exact Text.lower_eq_self_of_isSmall (List.all_eq_true.mp small name named)
  rw [← List.map_flatMap]
  show ((templateNames p).map Text.lower).Nodup
  rw [templateNames_eq, as_written]
  exact Text.nodup_of_fingerprints (by decide +kernel)

end Property

open Property

/-- **The extensions on any registry.** No name is lost. An extension fails exactly if a property
that it adds is known already or one that it needs is missing; then it hands the registry back as it
was, and that stays; otherwise all that it adds is known. Applying all of them again changes
nothing. -/
theorem extendAll_templateExtensions (base : Registry) (p : Primitives) :
    let all := (base.extendAll p templateExtensions).1
    (∀ name, base.contains name → all.contains name) ∧
      (∀ front label extension rest,
        templateExtensions = front ++ (label, extension) :: rest →
          let before := (base.extendAll p front).1
          let after := (base.extendAll p (front ++ [(label, extension)])).1
          ((∃ e s, extension before p = .error e s) ↔ Refused before label) ∧
            (∀ e s, extension before p = .error e s → s = before) ∧
            (Refused before label → after = before) ∧
            (¬Refused before label → ∀ name ∈ addedBy label, after.contains name)) ∧
      (all.extendAll p templateExtensions).1 = all := by
  have forms := templateForms.2
  obtain ⟨distinct, apart⟩ := Extension.Form.apart_of_nodup (nodup_templateNames p)
  refine ⟨?_, ?_, ?_⟩
  · intro name known
    rw [← forms]
    exact Extension.Form.contains_extendAll _ known
  · intro front label extension rest split before after
    have among : (label, extension) ∈ templateExtensions := by
      rw [split]
      exact List.mem_append_right _ List.mem_cons_self
    obtain ⟨form, listed, rfl⟩ := exists_form_of_mem among
    have distinct : form.Distinct p := distinct _ listed
    have added : form.added p = addedBy label := (added_templateForms p _ listed).1
    have applied : after = (before.extendOrWarn p label form.extension).1 :=
      Registry.extendAll_concat front label form.extension
    rw [applied, ← refused_iff (p := p) listed]
    refine ⟨Extension.Form.extension_eq_error_iff distinct, ?_, ?_, ?_⟩
    · exact fun e s => Extension.Form.eq_of_extension_error
    · exact fun refused => Extension.Form.extendOrWarn_of_refused distinct refused label
    · intro fits name named
      rw [← added] at named
      exact Extension.Form.contains_extendOrWarn distinct fits label name
        (Extension.Form.added_subset_names named)
  · have again := Extension.Form.extendAll_extendAll distinct apart base
    rwa [forms] at again

/-- One of the two properties for ruby is known, so the other is not added either. -/
theorem extendAll_templateExtensions_ruby :
    let base : Registry := .ofList [("ruby-align", Grammar.oneOf [])]
    let before := (base.extendAll .nothing (templateExtensions.take 5)).1
    (∃ e s, ruby before .nothing = .error e s ∧ s = before) ∧
      (base.extendAll .nothing (templateExtensions.take 6)).1 = before ∧
      ¬before.contains "ruby-position" := by
  intro base before
  obtain ⟨-, each, -⟩ := extendAll_templateExtensions base .nothing
  have split : templateExtensions =
      templateExtensions.take 5 ++ ("ruby", ruby) :: templateExtensions.drop 6 := rfl
  obtain ⟨fails, back, stays, -⟩ := each _ _ _ _ split
  have listed : base.contains "ruby-align" := by decide +kernel
  have known : before.contains "ruby-align" :=
    Extension.Form.contains_extendAll (templateForms.1.take 5) listed
  have refused : Refused before "ruby" := Or.inl ⟨"ruby-align", by simp [addedBy], known⟩
  obtain ⟨e, s, failed⟩ := fails.mpr refused
  exact ⟨⟨e, s, failed, back e s failed⟩, stays refused, by decide +kernel⟩

end CssSieve
