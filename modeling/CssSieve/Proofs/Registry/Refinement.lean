import CssSieve.Registry.Basic
import CssSieve.Proofs.Registry.Lookup
import Mathlib.Data.Finmap
import Mathlib.Data.List.Sort

/-!
# Registries are finite maps

A registry keeps its entries in a sorted list with names in lower case. Seen from outside it is a
finite map from names in lower case to grammars: `NameTable.toMap` forgets the list, every operation
does to the map what its name says, and every question is answered as the map would answer it
(`Represents`). `MapStep` and `MapRun` say what operations do to a map, without any list; the main
result is that a registry never shows a difference, whatever operations it went through.
-/

namespace CssSieve

open Text (lower)

/-- A finite map from names to grammars. -/
abbrev GrammarMap := Finmap fun _ : String => Grammar

namespace NameTable

/-- The entries as a finite map. -/
def toMap (t : NameTable Grammar) : GrammarMap :=
  (t.entries.map fun e => (⟨e.1, e.2⟩ : Sigma fun _ : String => Grammar)).toFinmap

variable (t : NameTable Grammar)

theorem dlookup_map (key : String) (es : List (String × Grammar)) :
    (es.map fun e => (⟨e.1, e.2⟩ : Sigma fun _ : String => Grammar)).dlookup key =
      (es.find? (·.1 == key)).map (·.2) := by
  induction es with
  | nil => rfl
  | cons e es ih =>
      rw [List.map_cons]
      by_cases same : e.1 = key
      · subst same
        rw [List.dlookup_cons_eq, List.find?_cons_of_pos (by simp), Option.map_some]
      · rw [List.dlookup_cons_ne _ _ (Ne.symm same), List.find?_cons_of_neg (by simpa using same), ih]

theorem lookup_toMap (key : String) :
    t.toMap.lookup key = (t.entries.find? (·.1 == key)).map (·.2) := by
  rw [toMap, Finmap.dlookup_list_toFinmap, dlookup_map]

theorem get?_eq_lookup (name : String) : t.get? name = t.toMap.lookup (lower name) := by
  rw [lookup_toMap, get?]

theorem contains_iff_mem (name : String) : t.contains name ↔ lower name ∈ t.toMap := by
  rw [contains, get?_eq_lookup, Finmap.lookup_isSome]

theorem toMap_empty : (∅ : NameTable Grammar).toMap = ∅ := rfl

theorem toMap_insert (name : String) (g : Grammar) :
    (t.insert name g).toMap = t.toMap.insert (lower name) g := by
  apply Finmap.ext_lookup
  intro key
  rw [lookup_toMap, insert]
  by_cases same : lower name = key
  · subst same
    simp [find?_insertEntry_self]
  · rw [find?_insertEntry_of_ne same, Finmap.lookup_insert_of_ne _ (Ne.symm same), lookup_toMap]

theorem toMap_erase (name : String) : (t.erase name).toMap = t.toMap.erase (lower name) := by
  apply Finmap.ext_lookup
  intro key
  rw [lookup_toMap, erase]
  by_cases same : lower name = key
  · subst same
    rw [Finmap.lookup_erase, find?_filter_self, Option.map_none]
  · rw [find?_filter_of_ne same, Finmap.lookup_erase_ne (Ne.symm same), lookup_toMap]

theorem mem_entries_iff_lookup (key : String) (g : Grammar) :
    (key, g) ∈ t.entries ↔ t.toMap.lookup key = some g := by
  rw [lookup_toMap, Option.map_eq_some_iff]
  constructor
  · intro listed
    cases found : t.entries.find? (·.1 == key) with
    | none => simpa using List.find?_eq_none.mp found _ listed
    | some e =>
        -- the names stand in strict order, so two entries of one name are the same
        have he : e ∈ t.entries := List.mem_of_find?_eq_some found
        have named : e.1 = key := by simpa using List.find?_some found
        have strict : (t.entries.map (·.1)).Nodup :=
          t.names_sorted.imp fun lt => String.ne_of_lt lt
        have same : e = (key, g) := List.inj_on_of_nodup_map strict he listed named
        exact ⟨e, rfl, congrArg Prod.snd same⟩
  · rintro ⟨e, found, rfl⟩
    have named : e.1 = key := by simpa using List.find?_some found
    exact named ▸ List.mem_of_find?_eq_some found

/-- Two registries that say the same of every name are the same. -/
theorem eq_of_get? {r s : NameTable Grammar} (same : ∀ name, r.get? name = s.get? name) :
    r = s := by
  have listed (t : NameTable Grammar) (e : String × Grammar) :
      e ∈ t.entries ↔ lower e.1 = e.1 ∧ t.get? e.1 = some e.2 := by
    rw [t.mem_entries_iff_lookup, get?_eq_lookup]
    constructor
    · intro found
      have lowered : lower e.1 = e.1 := t.lowered e ((t.mem_entries_iff_lookup _ _).mpr found)
      exact ⟨lowered, by rwa [lowered]⟩
    · rintro ⟨lowered, found⟩
      rwa [lowered] at found
  have irreflexive : Std.Irrefl fun a b : String × Grammar => a.1 < b.1 :=
    ⟨fun a => String.lt_irrefl a.1⟩
  have antisymmetric : Std.Antisymm fun a b : String × Grammar => a.1 < b.1 :=
    ⟨fun a b ab ba => absurd (String.lt_trans ab ba) (String.lt_irrefl a.1)⟩
  have entries : r.entries = s.entries := by
    apply r.sorted.eq_of_mem_iff s.sorted
    intro e
    rw [listed, listed, same]
  obtain ⟨entries_r, _, _⟩ := r
  obtain ⟨entries_s, _, _⟩ := s
  cases entries
  rfl

theorem nodup_names : t.names.Nodup := t.names_sorted.imp fun lt => String.ne_of_lt lt

theorem toFinset_names : t.names.toFinset = t.toMap.keys := by
  ext key
  rw [List.mem_toFinset, Finmap.mem_keys, Finmap.mem_iff, names, List.mem_map]
  constructor
  · rintro ⟨e, he, rfl⟩
    exact ⟨e.2, (t.mem_entries_iff_lookup e.1 e.2).mp he⟩
  · rintro ⟨g, found⟩
    exact ⟨(key, g), (t.mem_entries_iff_lookup key g).mpr found, rfl⟩

theorem size_eq_card : t.size = t.toMap.keys.card := by
  rw [← toFinset_names, List.toFinset_card_of_nodup t.nodup_names, names, List.length_map, size]

theorem isEmpty_iff : t.isEmpty ↔ t.toMap = ∅ := by
  rw [isEmpty, List.isEmpty_iff]
  constructor
  · intro none_listed
    rw [toMap, none_listed]
    rfl
  · intro none_known
    apply List.eq_nil_iff_forall_not_mem.mpr
    rintro ⟨key, g⟩ listed
    rw [mem_entries_iff_lookup, none_known, Finmap.lookup_empty] at listed
    cases listed

end NameTable

/-! ## Batches of entries -/

namespace GrammarMap

/-- The entries of a batch put in one after the other: a later entry of a name replaces an earlier
one. -/
def putAll (m : GrammarMap) (batch : List (String × Grammar)) : GrammarMap :=
  batch.foldl (fun m e => m.insert (lower e.1) e.2) m

/-- No name of the batch is in the map, and none stands twice in the batch. -/
def New (m : GrammarMap) (batch : List (String × Grammar)) : Prop :=
  (batch.map (lower ·.1)).Nodup ∧ ∀ e ∈ batch, lower e.1 ∉ m

variable {m : GrammarMap} {e : String × Grammar} {batch : List (String × Grammar)}

theorem New.nil : New m [] := ⟨List.nodup_nil, fun _ he => nomatch he⟩

/-- A batch is new if its first entry is, and the others are behind it. -/
theorem new_cons : New m (e :: batch) ↔ lower e.1 ∉ m ∧ New (m.insert (lower e.1) e.2) batch := by
  simp only [New, List.map_cons, List.nodup_cons, List.forall_mem_cons, Finmap.mem_insert, not_or,
    List.mem_map, not_exists, not_and]
  constructor
  · rintro ⟨⟨apart, nodup⟩, first, others⟩
    exact ⟨first, nodup, fun d hd => ⟨apart d hd, others d hd⟩⟩
  · rintro ⟨first, nodup, others⟩
    exact ⟨⟨fun d hd => (others d hd).1, nodup⟩, first, fun d hd => (others d hd).2⟩

theorem New.of_append {rest : List (String × Grammar)} (h : New m (batch ++ rest)) :
    New m batch := by
  rw [New, List.map_append] at h
  exact ⟨h.1.of_append_left, fun d hd => h.2 d (List.mem_append_left _ hd)⟩

theorem putAll_cons (m : GrammarMap) (e : String × Grammar) (batch : List (String × Grammar)) :
    putAll m (e :: batch) = putAll (m.insert (lower e.1) e.2) batch := rfl

theorem putAll_union (front m : GrammarMap) (batch : List (String × Grammar)) :
    putAll (front ∪ m) batch = putAll front batch ∪ m := by
  induction batch generalizing front with
  | nil => rfl
  | cons e batch ih => rw [putAll_cons, Finmap.insert_union, ih, putAll_cons]

/-- Put into a map, a batch hides what was there before. -/
theorem putAll_eq_union (m : GrammarMap) (batch : List (String × Grammar)) :
    putAll m batch = putAll ∅ batch ∪ m := by
  rw [← putAll_union, Finmap.empty_union]

end GrammarMap

open GrammarMap (New putAll new_cons)

theorem NameTable.toMap_insertAll (t : NameTable Grammar) (batch : List (String × Grammar)) :
    (t.insertAll batch).toMap = putAll t.toMap batch := by
  induction batch generalizing t with
  | nil => rfl
  | cons e batch ih =>
      have step : t.insertAll (e :: batch) = (t.insert e.1 e.2).insertAll batch := rfl
      rw [step, ih, toMap_insert, GrammarMap.putAll_cons]

namespace Registry

/-! ## Additions -/

/-- Putting in the entries that a batch comes to is putting in the batch. -/
theorem insertAll_entries_ofList (r : Registry) (batch : List (String × Grammar)) :
    r.insertAll (NameTable.ofList batch : Registry).entries = r.insertAll batch := by
  apply NameTable.eq_of_get?
  intro name
  rw [NameTable.get?_insertAll_entries, NameTable.ofList, NameTable.get?_insertAll,
    NameTable.get?_insertAll, NameTable.get?_empty, Option.or_none]

/-- The loop reads a batch to its end if it is new beside what is known or pending, and otherwise up
to its first entry that is not. -/
theorem addPending_cases (r : Registry) (pending : NameTable Grammar)
    (batch : List (String × Grammar)) :
    New (pending.toMap ∪ r.toMap) batch ∧
        addPending r pending batch = .ok () (r.insertAll (pending.insertAll batch).entries) ∨
      ∃ before e after, batch = before ++ e :: after ∧ New (pending.toMap ∪ r.toMap) before ∧
        ¬New (pending.toMap ∪ r.toMap) (before ++ [e]) ∧
        addPending r pending batch = .error (.duplicate (lower e.1)) r := by
  induction batch generalizing pending with
  | nil => exact Or.inl ⟨New.nil, rfl⟩
  | cons e batch ih =>
      have clash_iff : (r.contains e.1 || pending.contains e.1) = true ↔
          lower e.1 ∈ pending.toMap ∪ r.toMap := by
        rw [Bool.or_eq_true, r.contains_iff_mem, pending.contains_iff_mem, Finmap.mem_union,
          or_comm]
      rw [addPending]
      by_cases clash : lower e.1 ∈ pending.toMap ∪ r.toMap
      · refine Or.inr ⟨[], e, batch, rfl, New.nil, ?_, if_pos (clash_iff.mpr clash)⟩
        rw [List.nil_append, new_cons]
        exact fun new => new.1 clash
      · rw [if_neg (mt clash_iff.mp clash)]
        have behind := ih (pending.insert e.1 e.2)
        rw [NameTable.toMap_insert, ← Finmap.insert_union] at behind
        rcases behind with ⟨new, added⟩ | ⟨before, d, after, rfl, new, not_new, refused⟩
        · exact Or.inl ⟨new_cons.mpr ⟨clash, new⟩, added⟩
        · refine Or.inr ⟨e :: before, d, after, rfl, new_cons.mpr ⟨clash, new⟩, ?_, refused⟩
          rw [List.cons_append, new_cons]
          exact fun all_new => not_new all_new.2

/-- A batch that is new is put in. Any other one is refused for its first entry that is not new, and
the registry is handed back as it was. -/
theorem add_cases (r : Registry) (batch : List (String × Grammar)) :
    New r.toMap batch ∧ r.add batch = .ok () (r.insertAll batch) ∨
      ∃ before e after, batch = before ++ e :: after ∧ New r.toMap before ∧
        ¬New r.toMap (before ++ [e]) ∧ r.add batch = .error (.duplicate (lower e.1)) r := by
  have cases := addPending_cases r ∅ batch
  rw [NameTable.toMap_empty, Finmap.empty_union] at cases
  rwa [← insertAll_entries_ofList r batch]

theorem add_eq_ok_iff {r s : Registry} {batch : List (String × Grammar)} :
    r.add batch = .ok () s ↔ New r.toMap batch ∧ s = r.insertAll batch := by
  rcases r.add_cases batch with ⟨new, added⟩ | ⟨before, e, after, rfl, -, clash, refused⟩
  · simp [added, new, eq_comm]
  · have not_new : ¬New r.toMap (before ++ e :: after) := by
      intro new
      rw [List.append_cons] at new
      exact clash new.of_append
    simp [refused, not_new]

/-- A batch that is refused leaves the registry as it was. -/
theorem eq_of_add_error {r s : Registry} {batch : List (String × Grammar)} {e : RegistryError}
    (failed : r.add batch = .error e s) : s = r := by
  rcases r.add_cases batch with ⟨-, added⟩ | ⟨_, _, _, _, _, _, refused⟩
  · rw [added] at failed
    cases failed
  · rw [refused] at failed
    cases failed
    rfl

/-! ## Operations -/

/-- What changes a registry. -/
inductive Operation where
  | set (name : String) (g : Grammar)
  | setAll (batch : List (String × Grammar))
  | add (batch : List (String × Grammar))
  | remove (name : String)
  /-- The registry is made anew from a sequence of entries. -/
  | collect (batch : List (String × Grammar))

/-- What an operation answers. -/
inductive Answer where
  | done
  /-- The grammar that was replaced or taken out, if there was one. -/
  | previous (g : Option Grammar)
  | refused (e : RegistryError)

/-- The registry after an operation; that is what was handed back where one was refused. -/
def apply (r : Registry) : Operation → Registry × Answer
  | .set name g => ((r.set name g).1, .previous (r.set name g).2)
  | .setAll batch | .collect batch => (.ofList batch, .done)
  | .add batch =>
    match r.add batch with
    | .ok () s => (s, .done)
    | .error e s => (s, .refused e)
  | .remove name => ((r.remove name).1, .previous (r.remove name).2)

/-- The registry after operations one after the other, and their answers. -/
def run (r : Registry) : List Operation → Registry × List Answer
  | [] => (r, [])
  | op :: ops =>
    let (s, answer) := r.apply op
    let (s, answers) := run s ops
    (s, answer :: answers)

/-- What an operation does to a finite map, and what it answers. -/
inductive MapStep : GrammarMap → Operation → Answer → GrammarMap → Prop
  | set {m : GrammarMap} {name : String} {g : Grammar} :
      MapStep m (.set name g) (.previous (m.lookup (lower name))) (m.insert (lower name) g)
  | setAll {m : GrammarMap} {batch : List (String × Grammar)} :
      MapStep m (.setAll batch) .done (putAll ∅ batch)
  | add {m : GrammarMap} {batch : List (String × Grammar)} :
      New m batch → MapStep m (.add batch) .done (putAll ∅ batch ∪ m)
  | refuse {m : GrammarMap} {before after : List (String × Grammar)} {e : String × Grammar} :
      New m before → ¬New m (before ++ [e]) →
        MapStep m (.add (before ++ e :: after)) (.refused (.duplicate (lower e.1))) m
  | remove {m : GrammarMap} {name : String} :
      MapStep m (.remove name) (.previous (m.lookup (lower name))) (m.erase (lower name))
  | collect {m : GrammarMap} {batch : List (String × Grammar)} :
      MapStep m (.collect batch) .done (putAll ∅ batch)

/-- What operations one after the other do to a finite map, and what they answer. -/
inductive MapRun : GrammarMap → List Operation → List Answer → GrammarMap → Prop
  | nil {m : GrammarMap} : MapRun m [] [] m
  | cons {m n k : GrammarMap} {op : Operation} {ops : List Operation} {answer : Answer}
      {answers : List Answer} :
      MapStep m op answer n → MapRun n ops answers k → MapRun m (op :: ops) (answer :: answers) k

/-- Each operation on a registry is that on its map. -/
theorem mapStep_apply (r : Registry) (op : Operation) :
    MapStep r.toMap op (r.apply op).2 (r.apply op).1.toMap := by
  have made (batch : List (String × Grammar)) :
      (NameTable.ofList batch : Registry).toMap = putAll ∅ batch :=
    NameTable.toMap_insertAll ∅ batch
  cases op with
  | set name g =>
      simp only [apply, Registry.set, NameTable.toMap_insert, NameTable.get?_eq_lookup]
      exact MapStep.set
  | setAll batch =>
      rw [apply, made]
      exact MapStep.setAll
  | add batch =>
      rcases r.add_cases batch with ⟨new, added⟩ | ⟨before, e, after, rfl, new, clash, refused⟩
      · rw [apply, added]
        simp only [NameTable.toMap_insertAll, GrammarMap.putAll_eq_union r.toMap]
        exact MapStep.add new
      · rw [apply, refused]
        exact MapStep.refuse new clash
  | remove name =>
      simp only [apply, Registry.remove, NameTable.toMap_erase, NameTable.get?_eq_lookup]
      exact MapStep.remove
  | collect batch =>
      rw [apply, made]
      exact MapStep.collect

theorem mapRun_run (r : Registry) (ops : List Operation) :
    MapRun r.toMap ops (r.run ops).2 (r.run ops).1.toMap := by
  induction ops generalizing r with
  | nil => exact MapRun.nil
  | cons op ops ih => exact MapRun.cons (mapStep_apply r op) (ih (r.apply op).1)

/-! ## Questions -/

/-- Every question about a registry is answered as the map says, in whatever case a name is given.
The names are listed once each, in lower case and in strict order. -/
structure Represents (r : Registry) (m : GrammarMap) : Prop where
  get : ∀ name, r.get? name = m.lookup (lower name)
  contains : ∀ name, r.contains name ↔ lower name ∈ m
  require_known : ∀ name g, r.require name = .ok g ↔ m.lookup (lower name) = some g
  require_unknown : ∀ name e,
    r.require name = .error e ↔ lower name ∉ m ∧ e = .missing (lower name)
  size : r.size = m.keys.card
  isEmpty : r.isEmpty ↔ m = ∅
  names : r.names.toFinset = m.keys
  names_lowered : ∀ name ∈ r.names, lower name = name
  names_increasing : r.names.Pairwise (· < ·)
  entries : ∀ key g, (key, g) ∈ r.entries ↔ m.lookup key = some g
  entries_lowered : ∀ e ∈ r.entries, lower e.1 = e.1
  entries_increasing : r.entries.Pairwise (·.1 < ·.1)

theorem represents_toMap (r : Registry) : r.Represents r.toMap where
  get := r.get?_eq_lookup
  contains := r.contains_iff_mem
  require_known name g := by
    rw [require, r.get?_eq_lookup]
    cases r.toMap.lookup (lower name) <;> simp
  require_unknown name e := by
    rw [require, r.get?_eq_lookup, ← Finmap.lookup_eq_none]
    cases r.toMap.lookup (lower name) <;> simp [eq_comm]
  size := r.size_eq_card
  isEmpty := r.isEmpty_iff
  names := r.toFinset_names
  names_lowered name listed := by
    obtain ⟨e, he, rfl⟩ := List.mem_map.mp listed
    exact r.lowered e he
  names_increasing := r.names_sorted
  entries := r.mem_entries_iff_lookup
  entries_lowered := r.lowered
  entries_increasing := r.sorted

/-- **A registry is a finite map from names in lower case.** After any operations on the empty
registry, its answers and its content are those of the same operations on a finite map; a batch can
be added exactly if it is new, and one that cannot leaves the registry as it was. -/
theorem run_refines_map (ops : List Operation) :
    ∃ m, MapRun ∅ ops ((∅ : Registry).run ops).2 m ∧ ((∅ : Registry).run ops).1.Represents m ∧
      ∀ batch, let before := ((∅ : Registry).run ops).1
        ((∃ after, before.add batch = .ok () after) ↔ New m batch) ∧
          ∀ e after, before.add batch = .error e after → after = before := by
  refine ⟨((∅ : Registry).run ops).1.toMap, ?_, represents_toMap _, fun batch => ⟨?_, ?_⟩⟩
  · have runs := mapRun_run ∅ ops
    rwa [NameTable.toMap_empty] at runs
  · simp [add_eq_ok_iff]
  · exact fun e after => eq_of_add_error

end Registry

end CssSieve
