import CssSieve.Text.Ascii

/-!
# Tables keyed by name

A finite map whose keys are names up to ASCII case. Each name is kept in lower case, once, and the
entries stand in the strict order of their names, by code point; so two tables with the same
entries are the same table.
-/

namespace CssSieve

open Text (lower)

/-- A map from names, up to ASCII case, to values. -/
structure NameTable (α : Type) where
  entries : List (String × α)
  sorted : entries.Pairwise (·.1 < ·.1) := by simp
  lowered : ∀ e ∈ entries, lower e.1 = e.1 := by simp

namespace NameTable

variable {α : Type}

/-- The entries with the value of one key set. -/
def insertEntry (k : String) (v : α) : List (String × α) → List (String × α)
  | [] => [(k, v)]
  | e :: es =>
    if k < e.1 then (k, v) :: e :: es
    else if k = e.1 then (k, v) :: es
    else e :: insertEntry k v es

theorem mem_insertEntry {k : String} {v : α} {e : String × α} {es : List (String × α)}
    (h : e ∈ insertEntry k v es) : e = (k, v) ∨ e ∈ es := by
  induction es with
  | nil => simpa [insertEntry] using h
  | cons d ds ih =>
      rw [insertEntry] at h
      split at h
      · simpa using h
      · split at h
        · rcases List.mem_cons.mp h with h | h
          · exact .inl h
          · exact .inr (List.mem_cons_of_mem _ h)
        · rcases List.mem_cons.mp h with h | h
          · exact .inr (h ▸ List.mem_cons_self)
          · exact (ih h).imp_right (List.mem_cons_of_mem _)

theorem sorted_insertEntry {k : String} {v : α} {es : List (String × α)}
    (h : es.Pairwise (·.1 < ·.1)) : (insertEntry k v es).Pairwise (·.1 < ·.1) := by
  induction es with
  | nil => simp [insertEntry]
  | cons d ds ih =>
      obtain ⟨hd, hds⟩ := List.pairwise_cons.mp h
      rw [insertEntry]
      split
      next hk =>
        refine List.pairwise_cons.mpr ⟨fun e he => ?_, h⟩
        rcases List.mem_cons.mp he with he | he
        · exact he ▸ hk
        · exact String.lt_trans hk (hd e he)
      next hk =>
        split
        next hk' => exact List.pairwise_cons.mpr ⟨fun e he => hk' ▸ hd e he, hds⟩
        next hk' =>
          refine List.pairwise_cons.mpr ⟨fun e he => ?_, ih hds⟩
          rcases mem_insertEntry he with he | he
          · exact he ▸ Std.lt_of_le_of_ne hk (Ne.symm hk')
          · exact hd e he

def empty : NameTable α := { entries := [] }

instance : EmptyCollection (NameTable α) := ⟨empty⟩

instance : Inhabited (NameTable α) := ⟨∅⟩

/-- The table with the value of one name set. -/
def insert (t : NameTable α) (name : String) (v : α) : NameTable α where
  entries := insertEntry (lower name) v t.entries
  sorted := sorted_insertEntry t.sorted
  lowered := fun e he => by
    rcases mem_insertEntry he with he | he
    · simp [he, Text.lower_lower]
    · exact t.lowered e he

/-- The table without a name. -/
def erase (t : NameTable α) (name : String) : NameTable α where
  entries := t.entries.filter (·.1 != lower name)
  sorted := t.sorted.filter _
  lowered := fun e he => t.lowered e (List.mem_filter.mp he).1

/-- The value of a name. -/
def get? (t : NameTable α) (name : String) : Option α :=
  (t.entries.find? (·.1 == lower name)).map (·.2)

def contains (t : NameTable α) (name : String) : Bool := (t.get? name).isSome

def size (t : NameTable α) : Nat := t.entries.length

def isEmpty (t : NameTable α) : Bool := t.entries.isEmpty

/-- The names, in order. -/
def names (t : NameTable α) : List String := t.entries.map (·.1)

/-- The table with the values of several names set, one after the other: a later value of a name
replaces an earlier one. -/
def insertAll (t : NameTable α) (es : List (String × α)) : NameTable α :=
  es.foldl (fun t e => t.insert e.1 e.2) t

def ofList (es : List (String × α)) : NameTable α := insertAll ∅ es

/-! ## Looking up what was put in -/

theorem get?_empty (name : String) : (∅ : NameTable α).get? name = none := rfl

theorem find?_insertEntry_self (k : String) (v : α) (es : List (String × α)) :
    (insertEntry k v es).find? (·.1 == k) = some (k, v) := by
  induction es with
  | nil => simp [insertEntry]
  | cons d ds ih =>
      rw [insertEntry]
      split
      next => simp
      next =>
        split
        next => simp
        next hk => rw [List.find?_cons_of_neg (by simpa using Ne.symm hk), ih]

theorem find?_insertEntry_of_ne {k j : String} (h : k ≠ j) (v : α) (es : List (String × α)) :
    (insertEntry k v es).find? (·.1 == j) = es.find? (·.1 == j) := by
  induction es with
  | nil => simp [insertEntry, h]
  | cons d ds ih =>
      rw [insertEntry]
      split
      next => rw [List.find?_cons_of_neg (by simpa using h)]
      next =>
        split
        next hk =>
          rw [List.find?_cons_of_neg (by simpa using h),
            List.find?_cons_of_neg (by simpa using hk ▸ h)]
        next => rw [List.find?_cons, List.find?_cons, ih]

theorem find?_filter_self (k : String) (es : List (String × α)) :
    (es.filter (·.1 != k)).find? (·.1 == k) = none := by
  rw [List.find?_filter, List.find?_eq_none]
  simp

theorem find?_filter_of_ne {k j : String} (h : k ≠ j) (es : List (String × α)) :
    (es.filter (·.1 != k)).find? (·.1 == j) = es.find? (·.1 == j) := by
  rw [List.find?_filter]
  congr 1
  funext e
  by_cases here : e.1 = j
  · simp [here, Ne.symm h]
  · simp [here]

/-- The name set has the new value; every other name keeps its own. -/
theorem get?_insert (t : NameTable α) (name other : String) (v : α) :
    (t.insert name v).get? other = if lower name = lower other then some v else t.get? other := by
  rw [get?, insert]
  split
  next h => simp [h, find?_insertEntry_self]
  next h => rw [find?_insertEntry_of_ne h, get?]

/-- The last of several values of a name counts; a name that none of them has keeps its own. -/
theorem get?_insertAll (t : NameTable α) (es : List (String × α)) (name : String) :
    (t.insertAll es).get? name =
      ((es.reverse.find? (lower ·.1 == lower name)).map (·.2)).or (t.get? name) := by
  induction es generalizing t with
  | nil => rfl
  | cons e es ih =>
      have step : t.insertAll (e :: es) = (t.insert e.1 e.2).insertAll es := rfl
      rw [step, ih, get?_insert, List.reverse_cons, List.find?_append]
      by_cases h : lower e.1 = lower name <;>
        cases es.reverse.find? (lower ·.1 == lower name) <;> simp [h]

/-- The names stand in strict order, so none occurs twice. -/
theorem names_sorted (t : NameTable α) : t.names.Pairwise (· < ·) :=
  List.pairwise_map.mpr t.sorted

end NameTable

end CssSieve
