import CssSieve.Warning
import Mathlib.Data.List.Basic

/-!
# Warnings with the same text

A warning is remembered by one text, its component in brackets and its message behind them. The
component ends at the first `] ` for a reader, but it may hold a `] ` itself, and then two warnings
have the same text when the longer component goes on in the message of the other one
(`key_eq_iff`). A store therefore takes a warning for shown when that warning or one that is
confused with it was shown before, and in no other case (`warn_warnAll`).
-/

namespace CssSieve

namespace Warning

/-- The component of the first warning is that of the second with a part of its message, and its
message is the rest. -/
def RunsInto (u w : Warning) : Prop :=
  ∃ between : String,
    u.component = w.component ++ "] " ++ between ∧ w.message = between ++ "] " ++ u.message

/-- Two warnings that differ only in where the component ends. -/
def Confused (u w : Warning) : Prop := u.RunsInto w ∨ w.RunsInto u

/-! ## Where the component ends -/

theorem toList_key (w : Warning) :
    w.key.toList = '[' :: (w.component.toList ++ ']' :: ' ' :: w.message.toList) := by
  simp [key, toString]

/-- A bracket is no space, so a second end of the component stands two characters further on, or
more. -/
theorem end_cases {mid m n : List Char} (h : ']' :: ' ' :: m = mid ++ ']' :: ' ' :: n) :
    mid = [] ∧ m = n ∨ ∃ between, mid = ']' :: ' ' :: between ∧ m = between ++ ']' :: ' ' :: n := by
  match mid with
  | [] => exact Or.inl ⟨rfl, by simpa using h⟩
  | [_] => simp at h
  | _ :: _ :: between =>
      obtain ⟨rfl, rfl, rest⟩ : ']' = _ ∧ ' ' = _ ∧ m = between ++ ']' :: ' ' :: n := by
        simpa using h
      exact Or.inr ⟨between, rfl, rest⟩

theorem eq_or_runsInto {u w : Warning} {mid : List Char}
    (longer : u.component.toList = w.component.toList ++ mid)
    (rest : ']' :: ' ' :: w.message.toList = mid ++ ']' :: ' ' :: u.message.toList) :
    u = w ∨ u.RunsInto w := by
  obtain ⟨uc, um⟩ := u
  obtain ⟨wc, wm⟩ := w
  rcases end_cases rest with ⟨rfl, same⟩ | ⟨between, rfl, parts⟩
  · left
    rw [Warning.mk.injEq, ← String.toList_inj, ← String.toList_inj]
    exact ⟨by simpa using longer, same.symm⟩
  · right
    refine ⟨String.ofList between, ?_, ?_⟩
    · simpa [← String.toList_inj] using longer
    · simpa [← String.toList_inj] using parts

theorem RunsInto.key_eq {u w : Warning} (h : u.RunsInto w) : u.key = w.key := by
  obtain ⟨between, component, message⟩ := h
  rw [← String.toList_inj, toList_key, toList_key, component, message]
  simp

/-- Warnings have the same text only if they are the same, or confused. -/
theorem key_eq_iff {u w : Warning} : u.key = w.key ↔ u = w ∨ u.Confused w := by
  constructor
  · intro same
    rw [← String.toList_inj, toList_key, toList_key, List.cons.injEq] at same
    rcases List.append_eq_append_iff.mp same.2 with ⟨mid, longer, rest⟩ | ⟨mid, longer, rest⟩
    · exact (eq_or_runsInto longer rest).imp Eq.symm Or.inr
    · exact (eq_or_runsInto longer rest).imp id Or.inl
  · rintro (rfl | runs | runs)
    · rfl
    · exact runs.key_eq
    · exact runs.key_eq.symm

/-- Warnings about one component are never confused. -/
theorem not_confused_of_component_eq {u w : Warning} (same : u.component = w.component) :
    ¬u.Confused w := by
  have shorter {u w : Warning} (runs : u.RunsInto w) : w.component.length < u.component.length := by
    obtain ⟨between, component, -⟩ := runs
    rw [component, String.length_append, String.length_append]
    have : "] ".length = 2 := rfl
    omega
  rintro (runs | runs)
  · exact Nat.lt_irrefl _ (same ▸ shorter runs)
  · exact Nat.lt_irrefl _ (same ▸ shorter runs)

/-- Warnings whose components have no `] ` in them are never confused. -/
theorem not_confused_of_closed {u w : Warning} (hu : ¬[']', ' '] <:+: u.component.toList)
    (hw : ¬[']', ' '] <:+: w.component.toList) : ¬u.Confused w := by
  have opened {u w : Warning} (runs : u.RunsInto w) : [']', ' '] <:+: u.component.toList := by
    obtain ⟨between, component, -⟩ := runs
    exact ⟨w.component.toList, between.toList, by simp [component]⟩
  rintro (runs | runs)
  · exact hu (opened runs)
  · exact hw (opened runs)

end Warning

namespace WarningStore

theorem contains_iff {s : WarningStore} {w : Warning} : s.contains w = true ↔ w.key ∈ s.shown :=
  List.contains_iff_mem

theorem mem_shown_warn {s : WarningStore} {w : Warning} {text : String} :
    text ∈ (s.warn w).1.shown ↔ text = w.key ∨ text ∈ s.shown := by
  rw [warn]
  split
  next known =>
    have kept : w.key ∈ s.shown := contains_iff.mp known
    constructor
    · exact Or.inr
    · rintro (rfl | h)
      · exact kept
      · exact h
  next => exact List.mem_cons

theorem mem_shown_warnAll {s : WarningStore} {ws : List Warning} {text : String} :
    text ∈ (s.warnAll ws).shown ↔ text ∈ s.shown ∨ ∃ w ∈ ws, w.key = text := by
  induction ws generalizing s with
  | nil => simp [warnAll]
  | cons w ws ih =>
      have rest : text ∈ (s.warnAll (w :: ws)).shown ↔ _ := ih
      rw [rest, mem_shown_warn, List.exists_mem_cons_iff]
      tauto

/-- **When a warning is shown.** After any warnings, a warning is shown exactly if neither it nor one
that is confused with it was among them, and it counts as shown exactly if one of these was. -/
theorem warn_warnAll (earlier : List Warning) (w : Warning) :
    (((warnAll ∅ earlier).warn w).2 = true ↔ w ∉ earlier ∧ ∀ u ∈ earlier, ¬u.Confused w) ∧
      ((warnAll ∅ earlier).contains w = true ↔ w ∈ earlier ∨ ∃ u ∈ earlier, u.Confused w) := by
  have known : (warnAll ∅ earlier).contains w = true ↔
      w ∈ earlier ∨ ∃ u ∈ earlier, u.Confused w := by
    rw [contains_iff, mem_shown_warnAll]
    simp only [Warning.key_eq_iff]
    constructor
    · rintro (none_yet | ⟨u, listed, rfl | confused⟩)
      · cases none_yet
      · exact Or.inl listed
      · exact Or.inr ⟨u, listed, confused⟩
    · rintro (listed | ⟨u, listed, confused⟩)
      · exact Or.inr ⟨w, listed, Or.inl rfl⟩
      · exact Or.inr ⟨u, listed, Or.inr confused⟩
  refine ⟨?_, known⟩
  have shown_iff : ((warnAll ∅ earlier).warn w).2 = true ↔
      ¬(warnAll ∅ earlier).contains w = true := by
    rw [warn]
    split
    next seen => simp [seen]
    next new => simp [new]
  simp only [shown_iff, known, not_or, not_exists, not_and]

/-- A warning that was never given counts as shown, and is not shown when it is given. -/
theorem unshown_counts_as_shown :
    let given : Warning := ⟨"a", "b] c"⟩
    let other : Warning := ⟨"a] b", "c"⟩
    other ∉ [given] ∧ (warnAll ∅ [given]).contains other = true ∧
      ((warnAll ∅ [given]).warn other).2 = false := by
  decide +kernel

end WarningStore

end CssSieve
