/-!
# Records of the furthest failures

A search that tries many branches fails in most of them. The branch that got furthest is the one
that was meant, so a record keeps only what was noted at the greatest offset so far: a note at a
smaller offset is dropped, one at the same offset is added unless it is there already, and one at a
greater offset replaces everything.
-/

namespace CssSieve

/-- What was noted at the greatest offset, each note once, in the order of first recording. -/
structure Furthest (α : Type) where
  offset : Nat
  notes : List α
deriving DecidableEq, Repr

namespace Furthest

variable {α : Type} [DecidableEq α]

/-- Nothing noted yet. -/
def empty : Furthest α := ⟨0, []⟩

instance : EmptyCollection (Furthest α) := ⟨empty⟩

instance : Inhabited (Furthest α) := ⟨∅⟩

/-- Adds a note. -/
def record (f : Furthest α) (offset : Nat) (note : α) : Furthest α :=
  if f.notes.isEmpty ∨ f.offset < offset then ⟨offset, [note]⟩
  else if offset < f.offset ∨ note ∈ f.notes then f
  else ⟨offset, f.notes ++ [note]⟩

/-- Adds what another record noted. -/
def merge (f g : Furthest α) : Furthest α :=
  g.notes.foldl (fun f note => f.record g.offset note) f

instance : Append (Furthest α) := ⟨merge⟩

/-- The record after a sequence of notes. -/
def ofList (entries : List (Nat × α)) : Furthest α :=
  entries.foldl (fun f e => f.record e.1 e.2) ∅

/-- The notes with their offset. -/
def toList (f : Furthest α) : List (Nat × α) := f.notes.map (f.offset, ·)

/-! ## An offset in every entry

The same kept as a list, in which every note has an offset of its own. Only that of the first entry
is compared. -/

/-- Adds a note to a list. -/
def hint (entries : List (Nat × α)) (offset : Nat) (note : α) : List (Nat × α) :=
  match entries.head? with
  | some first =>
    if offset < first.1 then entries
    else if offset = first.1 then
      if entries.any (·.2 = note) then entries else entries ++ [(offset, note)]
    else [(offset, note)]
  | none => [(offset, note)]

/-- The list after a sequence of notes. -/
def hints (calls : List (Nat × α)) : List (Nat × α) :=
  calls.foldl (fun entries call => hint entries call.1 call.2) []

end Furthest

end CssSieve
