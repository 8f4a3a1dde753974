import CssSieve.Proofs.Policy.Options
import Mathlib.Data.List.Nodup

/-!
# Looking up listed names

What a table says of a name that stands in the list it was made from. The names are compared in
lower case, so a list whose names are in lower case already, and distinct, says of each name what
its one entry says.
-/

namespace CssSieve

/-- Whether none of the bytes of a text is that of a capital letter. -/
def Text.isSmall (s : String) : Bool :=
  s.toByteArray.data.toList.all fun b => b.toNat < 65 || 90 < b.toNat

theorem Text.lower_eq_self_of_isSmall {s : String} (small : isSmall s = true) : lower s = s := by
  rw [lower, ← String.toList_inj, String.toList_map]
  refine (List.map_congr_left ?_).trans (List.map_id _)
  intro c hc
  apply toLower_eq_self
  rintro ⟨low, high⟩
  have low : 65 ≤ c.val.toNat := UInt32.le_iff_toNat_le.mp low
  have high : c.val.toNat ≤ 90 := UInt32.le_iff_toNat_le.mp high
  have encoded : UInt8.ofNat c.val.toNat ∈ String.utf8EncodeChar c := by
    dsimp only [String.utf8EncodeChar]
    rw [if_pos (by omega)]
    exact List.mem_singleton_self _
  have listed : UInt8.ofNat c.val.toNat ∈ s.toByteArray.data.toList := by
    rw [← String.utf8Encode_toList, List.utf8Encode, List.data_toByteArray]
    exact List.mem_flatMap.mpr ⟨c, hc, encoded⟩
  have outside := List.all_eq_true.mp small _ listed
  rw [Bool.or_eq_true, decide_eq_true_iff, decide_eq_true_iff, UInt8.toNat_ofNat'] at outside
  omega

/-! ## Distinct texts

Long lists of texts are told apart by a number for each text, so that no two texts have to be
compared. -/

/-- A number for a text, below 65521. -/
def Text.fingerprint (s : String) : Nat :=
  s.toByteArray.data.toList.foldl (fun n b => (31 * n + b.toNat) % 65521) 0

/-- Whether numbers can be marked one after the other with none marked before. -/
def Text.allUnmarked : List Nat → Nat → Bool
  | [], _ => true
  | n :: ns, marks => !marks.testBit n && allUnmarked ns (marks ||| 1 <<< n)

theorem Text.nodup_of_allUnmarked {ns : List Nat} {marks : Nat}
    (h : allUnmarked ns marks = true) : ns.Nodup ∧ ∀ n ∈ ns, marks.testBit n = false := by
  induction ns generalizing marks with
  | nil => simp
  | cons n ns ih =>
      rw [allUnmarked, Bool.and_eq_true, Bool.not_eq_true'] at h
      obtain ⟨unmarked, rest⟩ := h
      obtain ⟨distinct, others⟩ := ih rest
      have apart : ∀ m ∈ ns, marks.testBit m = false ∧ n ≠ m := by
        intro m hm
        simpa [Nat.testBit_or, Nat.one_shiftLeft, Nat.testBit_two_pow] using others m hm
      constructor
      · exact List.nodup_cons.mpr ⟨fun again => (apart n again).2 rfl, distinct⟩
      · exact List.forall_mem_cons.mpr ⟨unmarked, fun m hm => (apart m hm).1⟩

theorem Text.nodup_of_fingerprints {texts : List String}
    (h : allUnmarked (texts.map fingerprint) 0 = true) : texts.Nodup :=
  (nodup_of_allUnmarked h).1.of_map

namespace NameTable

variable {α : Type} {t : NameTable α} {es fs : List (String × α)} {name : String} {v : α}

theorem get?_congr {other : String} (same : Text.lower name = Text.lower other) :
    t.get? name = t.get? other := by
  rw [get?, get?, same]

theorem insertAll_append : t.insertAll (es ++ fs) = (t.insertAll es).insertAll fs :=
  List.foldl_append

theorem get?_insertAll_of_not_mem (h : ∀ e ∈ es, Text.lower e.1 ≠ Text.lower name) :
    (t.insertAll es).get? name = t.get? name := by
  have absent : es.reverse.find? (Text.lower ·.1 == Text.lower name) = none := by
    rw [List.find?_eq_none]
    intro e he
    simpa using h e (List.mem_reverse.mp he)
  rw [get?_insertAll, absent, Option.map_none, Option.none_or]

/-- A value that was put in under no other entry of its name is found. -/
theorem get?_insertAll_of_mem (nodup : (es.map (Text.lower ·.1)).Nodup) (h : (name, v) ∈ es) :
    (t.insertAll es).get? name = some v := by
  obtain ⟨before, after, rfl⟩ := List.append_of_mem h
  have behind : ∀ e ∈ after, Text.lower e.1 ≠ Text.lower name := by
    intro e he same
    rw [List.map_append, List.map_cons] at nodup
    have first := (List.nodup_cons.mp (List.nodup_append.mp nodup).2.1).1
    exact first (same ▸ List.mem_map_of_mem he)
  have step : t.insertAll (before ++ (name, v) :: after) =
      ((t.insertAll before).insert name v).insertAll after := insertAll_append
  rw [step, get?_insertAll_of_not_mem behind, get?_insert, if_pos rfl]

/-- The entries of another table put in: what the other one knows counts. -/
theorem get?_insertAll_entries (t other : NameTable α) (name : String) :
    (t.insertAll other.entries).get? name = (other.get? name).or (t.get? name) := by
  cases found : other.get? name with
  | none =>
      have unlisted : ∀ e ∈ other.entries, Text.lower e.1 ≠ Text.lower name := by
        intro e he
        rw [other.lowered e he]
        simpa using List.find?_eq_none.mp (Option.map_eq_none_iff.mp found) e he
      rw [get?_insertAll_of_not_mem unlisted, Option.none_or]
  | some v =>
      obtain ⟨e, listed, rfl⟩ := Option.map_eq_some_iff.mp found
      have he : e ∈ other.entries := List.mem_of_find?_eq_some listed
      have named : e.1 = Text.lower name := by simpa using List.find?_some listed
      have distinct : (other.entries.map (Text.lower ·.1)).Nodup := by
        rw [List.map_congr_left other.lowered]
        exact other.names_sorted.imp fun lt => String.ne_of_lt lt
      have same : Text.lower e.1 = Text.lower name := by rw [other.lowered e he, named]
      rw [← get?_congr same, get?_insertAll_of_mem distinct he, Option.some_or]

theorem get?_ofList_of_mem (nodup : (es.map (Text.lower ·.1)).Nodup) (h : (name, v) ∈ es) :
    (ofList es).get? name = some v :=
  get?_insertAll_of_mem nodup h

end NameTable

end CssSieve
