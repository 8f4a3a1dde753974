import CssSieve.Proofs.Grammar.Recording
import Mathlib.Data.List.Basic
import Mathlib.Data.List.Induction

/-!
# What is left of a sequence of notes

A list of notes is looked at through its first entry only, and the next note is ignored, added, or
the list starts again with it. That one comparison is enough, since all entries are at one offset:
at every step the list is that of a record, which has no other offset (`toList_record`). After any
sequence of notes it holds those at the greatest offset of all, each once, in the order in which
they were first noted there (`hints_keep_furthest`).
-/

namespace CssSieve.Furthest

variable {α : Type} [DecidableEq α] {f : Furthest α} {entries : Nat × α → Prop}

theorem Keeps.record (h : f.Keeps entries) (offset : Nat) (note : α) :
    (f.record offset note).Keeps fun entry => entries entry ∨ entry = (offset, note) := by
  constructor
  · intro entry kept
    exact (mem_toList_record kept).imp_left (h.kept entry)
  · rintro entry (listed | rfl)
    · exact (h.known entry listed).record offset note
    · exact knows_record f offset note

theorem ofList_concat (calls : List (Nat × α)) (call : Nat × α) :
    ofList (calls ++ [call]) = (ofList calls).record call.1 call.2 :=
  List.foldl_concat ..

theorem keeps_ofList (calls : List (Nat × α)) : (ofList calls).Keeps (· ∈ calls) := by
  induction calls using List.reverseRecOn with
  | nil => exact keeps_empty.congr fun entry => by simp
  | append_singleton calls call ih =>
      rw [ofList_concat]
      exact (ih.record call.1 call.2).congr fun entry => by simp

/-! ## The order of first noting -/

/-- The entries held stand in the order in which they were first noted, so each is there once. -/
theorem inOrder_ofList (calls : List (Nat × α)) :
    (ofList calls).toList.Pairwise fun a b => calls.idxOf a < calls.idxOf b := by
  induction calls using List.reverseRecOn with
  | nil => exact List.Pairwise.nil
  | append_singleton calls call ih =>
      obtain ⟨offset, note⟩ := call
      have keeps := keeps_ofList calls
      have noted_at (entry : Nat × α) (kept : entry ∈ (ofList calls).toList) :
          (calls ++ [(offset, note)]).idxOf entry = calls.idxOf entry :=
        List.idxOf_append_of_mem (keeps.kept entry kept)
      have before : (ofList calls).toList.Pairwise fun a b =>
          (calls ++ [(offset, note)]).idxOf a < (calls ++ [(offset, note)]).idxOf b := by
        refine ih.imp_of_mem fun ha hb first => ?_
        rwa [noted_at _ ha, noted_at _ hb]
      rw [ofList_concat]
      rcases record_cases (ofList calls) offset note with further | known | ⟨noted, rfl, new⟩
      · rw [record_further further]
        exact List.pairwise_singleton _ _
      · rwa [record_of_knows known]
      -- a note that is not held at this offset was never noted there
      · have unlisted : ((ofList calls).offset, note) ∉ calls :=
          fun listed => new ((keeps.known _ listed).known rfl)
        rw [record_new noted new, toList, List.map_append]
        refine List.pairwise_append.mpr ⟨before, List.pairwise_singleton _ _, ?_⟩
        intro a ha b hb
        obtain rfl := List.mem_singleton.mp hb
        have first := List.idxOf_lt_length_of_mem (keeps.kept a ha)
        rw [noted_at a ha, List.idxOf_append_of_notMem unlisted]
        omega

/-! ## Lists with an offset in every entry -/

/-- All entries in the list of a record are at its offset, so the first one shows it. -/
theorem hint_toList (noted : f.notes ≠ []) (offset : Nat) (note : α) :
    hint f.toList offset note =
      if offset < f.offset then f.toList
      else if offset = f.offset then
        if note ∈ f.notes then f.toList else f.toList ++ [(offset, note)]
      else [(offset, note)] := by
  obtain ⟨first, others, listed⟩ := List.exists_cons_of_ne_nil noted
  have shown : f.toList.head? = some (f.offset, first) := by
    rw [toList, listed]
    rfl
  have known : f.toList.any (·.2 = note) = decide (note ∈ f.notes) := by
    rw [Bool.eq_iff_iff, List.any_eq_true]
    simp [toList]
  rw [hint, shown]
  simp only [known, decide_eq_true_eq]

/-- Noting in a record is noting in its list. -/
theorem toList_record (f : Furthest α) (offset : Nat) (note : α) :
    (f.record offset note).toList = hint f.toList offset note := by
  by_cases noted : f.notes = []
  · rw [record_further (Or.inl noted), toList, toList, noted]
    rfl
  rw [hint_toList noted]
  rcases record_cases f offset note with further | known | ⟨-, rfl, new⟩
  · have further : f.offset < offset := further.resolve_left noted
    rw [record_further (Or.inr further), if_neg (by omega), if_neg (by omega)]
    rfl
  · rw [record_of_knows known]
    rcases Nat.eq_or_lt_of_le known.within with rfl | nearer
    · rw [if_neg (Nat.lt_irrefl _), if_pos rfl, if_pos (known.known rfl)]
    · rw [if_pos nearer]
  · rw [record_new noted new, if_neg (Nat.lt_irrefl _), if_pos rfl, if_neg new, toList,
      List.map_append]
    rfl

theorem toList_ofList (calls : List (Nat × α)) : (ofList calls).toList = hints calls := by
  induction calls using List.reverseRecOn with
  | nil => rfl
  | append_singleton calls call ih =>
      rw [ofList_concat, toList_record, ih, hints, hints, List.foldl_concat]

/-- **A list of notes keeps what was noted furthest on.** After any sequence of notes all entries
are at the greatest offset noted. They are exactly the notes at that offset, each once, in the order
in which they were first noted there. A record holds the same. -/
theorem hints_keep_furthest (calls : List (Nat × α)) :
    (∀ entry ∈ hints calls, (calls.map (·.1)).max? = some entry.1) ∧
      (∀ entry, entry ∈ hints calls ↔ entry ∈ calls ∧ ∀ other ∈ calls, other.1 ≤ entry.1) ∧
      ((hints calls).Pairwise fun a b => calls.idxOf a < calls.idxOf b) ∧
      (ofList calls).toList = hints calls := by
  rw [← toList_ofList]
  have kept (entry : Nat × α) : entry ∈ (ofList calls).toList ↔
      entry ∈ calls ∧ ∀ other ∈ calls, other.1 ≤ entry.1 := (keeps_ofList calls).mem_toList_iff
  refine ⟨?_, kept, inOrder_ofList calls, rfl⟩
  intro entry held
  obtain ⟨noted, furthest⟩ := (kept entry).mp held
  rw [List.max?_eq_some_iff]
  exact ⟨List.mem_map_of_mem noted, List.forall_mem_map.mpr furthest⟩

end CssSieve.Furthest
