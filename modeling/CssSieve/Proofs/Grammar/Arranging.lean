import CssSieve.Proofs.Grammar.Contract
import Mathlib.Data.List.Sort

/-!
# Groups do not depend on the order of their parts

The parts of a group may stand in any order, so writing the group down in another order must make no
difference. The search visits its states in another order then, and asks other parts first. What it
visits are the arrangements of the parts all the same: some of them used one after the other, each
at most once. An arrangement of the parts is one of the parts in another order, with other indices.
-/

namespace CssSieve.Search

section

variable (parts : List Search) (values : List Value) (start : Nat)

/-- Some of the parts, by their indices, are used one after the other from the start, and each of
them consumes something. -/
inductive Arranges : List (Fin parts.length) → Nat → Prop
  | nothing : Arranges [] start
  | use {order : List (Fin parts.length)} {pos e : Nat} {i : Fin parts.length} :
      Arranges order pos → i ∉ order → e ∈ (parts[i] values pos).ends → e ≠ pos →
      Arranges (order ++ [i]) e

/-- The search may stop where an arrangement ends. -/
def MayEnd (allRequired : Bool) (order : List (Fin parts.length)) (e : Nat) : Prop :=
  if allRequired then ∀ i, i ∉ order → e ∈ (parts[i] values e).ends
  else order ≠ [] ∨ ∃ i, i ∉ order ∧ e ∈ (parts[i] values e).ends

/-- What the parts note that an arrangement leaves unused, asked where it ends. -/
def Notes (entry : Nat × Fault) : Prop :=
  ∃ order pos i, Arranges parts values start order pos ∧ i ∉ order ∧
    entry ∈ (parts[i] values pos).faults.toList

end

variable {parts parts' : List Search} {values : List Value} {start : Nat} {allRequired : Bool}

/-! ## What the search finds, by arrangements -/

theorem mem_zipIdx_iff {part : Search} {i : Nat} :
    (part, i) ∈ parts.zipIdx ↔ ∃ j : Fin parts.length, parts[j] = part ∧ j.val = i := by
  rw [List.mk_mem_zipIdx_iff_getElem?]
  constructor
  · intro found
    obtain ⟨inside, same⟩ := List.getElem?_eq_some_iff.mp found
    exact ⟨⟨i, inside⟩, same, rfl⟩
  · rintro ⟨j, rfl, rfl⟩
    exact List.getElem?_eq_getElem j.isLt

theorem mem_tryUnused_mask {order : List (Fin parts.length)} {pos : Nat} {t : Outcome × Nat} :
    t ∈ tryUnused parts.zipIdx values pos (mask order) ↔
      ∃ i : Fin parts.length, i ∉ order ∧ t = (parts[i] values pos, i.val) := by
  rw [mem_tryUnused]
  constructor
  · rintro ⟨⟨part, i⟩, listed, unused, rfl⟩
    obtain ⟨j, rfl, rfl⟩ := mem_zipIdx_iff.mp listed
    exact ⟨j, testBit_mask_eq_false.mp unused, rfl⟩
  · rintro ⟨i, unused, rfl⟩
    exact ⟨_, mem_zipIdx_iff.mpr ⟨i, rfl, rfl⟩, testBit_mask_eq_false.mpr unused, rfl⟩

/-- The states reached are those of the arrangements. -/
theorem reached_iff_arranges {e used : Nat} :
    Relation.ReflTransGen (Uses parts.zipIdx values) (start, 0) (e, used) ↔
      ∃ order, Arranges parts values start order e ∧ mask order = used := by
  constructor
  · intro reached
    generalize hs : (e, used) = s at reached
    induction reached generalizing e used with
    | refl =>
        cases hs
        exact ⟨[], .nothing, rfl⟩
    | @tail s _ _ step ih =>
        subst hs
        obtain ⟨pos, before⟩ := s
        obtain ⟨order, arranged, rfl⟩ := ih rfl
        cases step with
        | use listed unused found progress =>
            obtain ⟨i, rfl, rfl⟩ := mem_zipIdx_iff.mp listed
            have new := testBit_mask_eq_false.mp unused
            exact ⟨order ++ [i], arranged.use new found progress, mask_concat⟩
  · rintro ⟨order, arranged, rfl⟩
    induction arranged with
    | nothing => exact Relation.ReflTransGen.refl
    | use _ new found progress ih =>
        refine ih.tail ?_
        rw [mask_concat]
        exact Uses.use (mem_zipIdx_iff.mpr ⟨_, rfl, rfl⟩) (testBit_mask_eq_false.mpr new) found
          progress

theorem mayStop_mask_iff {order : List (Fin parts.length)} {e : Nat} :
    mayStop allRequired e (mask order) (tryUnused parts.zipIdx values e (mask order)) ↔
      MayEnd parts values allRequired order e := by
  cases allRequired with
  | true =>
      simp only [mayStop, MayEnd, if_true, List.all_eq_true, List.contains_iff_mem]
      constructor
      · intro all i unused
        exact all _ (mem_tryUnused_mask.mpr ⟨i, unused, rfl⟩)
      · intro all t tried
        obtain ⟨i, unused, rfl⟩ := mem_tryUnused_mask.mp tried
        exact all i unused
  | false =>
      simp only [mayStop, MayEnd, Bool.false_eq_true, if_false, Bool.or_eq_true, bne_iff_ne,
        mask_ne_zero, List.any_eq_true, List.contains_iff_mem]
      refine or_congr_right ⟨?_, ?_⟩
      · rintro ⟨t, tried, blank⟩
        obtain ⟨i, unused, rfl⟩ := mem_tryUnused_mask.mp tried
        exact ⟨i, unused, blank⟩
      · rintro ⟨i, unused, blank⟩
        exact ⟨_, mem_tryUnused_mask.mpr ⟨i, unused, rfl⟩, blank⟩

theorem mem_ends_anyOrder_iff_arranges {e : Nat} :
    e ∈ (anyOrder allRequired parts values start).ends ↔
      ∃ order, Arranges parts values start order e ∧ MayEnd parts values allRequired order e := by
  rw [mem_ends_anyOrder]
  constructor
  · rintro ⟨used, reached, stops⟩
    obtain ⟨order, arranged, rfl⟩ := reached_iff_arranges.mp reached
    exact ⟨order, arranged, mayStop_mask_iff.mp stops⟩
  · rintro ⟨order, arranged, stops⟩
    exact ⟨mask order, reached_iff_arranges.mpr ⟨order, arranged, rfl⟩, mayStop_mask_iff.mpr stops⟩

/-! ## What is noted -/

/-- What the parts note that are tried at a state. -/
def NotesAt (parts : List (Search × Nat)) (values : List Value) (state : Nat × Nat)
    (entry : Nat × Fault) : Prop :=
  ∃ t ∈ tryUnused parts values state.1 state.2, entry ∈ t.1.faults.toList

/-- The faults are those that were noted at the states visited. -/
def Recorded (parts : List (Search × Nat)) (values : List Value) (x : Exploration) : Prop :=
  x.faults.Keeps fun entry => ∃ state ∈ x.visited, NotesAt parts values state entry

theorem keeps_foldl {tries : List (Outcome × Nat)} {f : Furthest Fault}
    {entries : Nat × Fault → Prop} (h : f.Keeps entries) :
    (tries.foldl (fun f t => f ++ t.1.faults) f).Keeps fun entry =>
      entries entry ∨ ∃ t ∈ tries, entry ∈ t.1.faults.toList := by
  induction tries generalizing f entries with
  | nil => exact h.congr fun entry => by simp
  | cons t tries ih =>
      have noted := ih (h.append (Furthest.keeps_toList t.1.faults))
      exact noted.congr fun entry => by rw [List.exists_mem_cons_iff, or_assoc]

section

variable {parts : List (Search × Nat)} {state : Nat × Nat} {x : Exploration}

theorem Recorded.visit (h : Recorded parts values x) :
    Recorded parts values (visit parts values allRequired state x) := by
  have noted : (Search.visit parts values allRequired state x).faults.Keeps _ := keeps_foldl h
  refine noted.congr fun entry => ?_
  rw [Search.visit, List.exists_mem_cons_iff, or_comm, NotesAt]

theorem Recorded.explore (h : Recorded parts values x) (n : Nat) :
    Recorded parts values (explore allRequired parts values n state x) :=
  explore_preserves (fun _ h => h.visit) (fun _ _ => trivial) trivial h

end

theorem keeps_faults_anyOrder :
    (anyOrder allRequired parts values start).faults.Keeps (Notes parts values start) := by
  have begun : Recorded parts.zipIdx values ⟨[], [], ∅⟩ :=
    Furthest.keeps_empty.congr fun entry => by simp
  have recorded : Recorded parts.zipIdx values (explored allRequired parts values start) :=
    begun.explore parts.length
  -- the states visited are the arrangements, and there the unused parts are tried
  refine recorded.congr fun entry => ⟨?_, ?_⟩
  · rintro ⟨⟨pos, used⟩, visited, t, tried, listed⟩
    obtain ⟨order, arranged, rfl⟩ := reached_iff_arranges.mp (mem_visited_explored.mp visited)
    obtain ⟨i, unused, rfl⟩ := mem_tryUnused_mask.mp tried
    exact ⟨order, pos, i, arranged, unused, listed⟩
  · rintro ⟨order, pos, i, arranged, unused, listed⟩
    have visited := reached_iff_arranges.mpr ⟨order, arranged, rfl⟩
    exact ⟨(pos, mask order), mem_visited_explored.mpr visited, _,
      mem_tryUnused_mask.mpr ⟨i, unused, rfl⟩, listed⟩

/-! ## Parts in another order -/

/-- The parts in another order, each with its index there. -/
structure Reorders (parts parts' : List Search)
    (there : Fin parts.length → Fin parts'.length) : Prop where
  same : ∀ i, parts'[there i] = parts[i]
  injective : Function.Injective there
  surjective : Function.Surjective there

theorem exists_reorders (same : parts.Perm parts') : ∃ there, Reorders parts parts' there := by
  classical
  exact ⟨same.idxBij, same.getElem_idxBij_eq_getElem, same.idxBij_injective,
    same.idxBij_surjective⟩

variable {there : Fin parts.length → Fin parts'.length}

theorem Reorders.mem_map_iff (h : Reorders parts parts' there) {order : List (Fin parts.length)}
    {i : Fin parts.length} : there i ∈ order.map there ↔ i ∈ order :=
  List.mem_map_of_injective h.injective

theorem Reorders.arranges (h : Reorders parts parts' there) {order : List (Fin parts.length)}
    {e : Nat} (arranged : Arranges parts values start order e) :
    Arranges parts' values start (order.map there) e := by
  induction arranged with
  | nothing => exact .nothing
  | @use order pos e i _ new found progress ih =>
      rw [List.map_append, List.map_singleton]
      refine ih.use (mt h.mem_map_iff.mp new) ?_ progress
      rwa [h.same]

theorem Reorders.mayEnd (h : Reorders parts parts' there) {order : List (Fin parts.length)}
    {e : Nat} (stops : MayEnd parts values allRequired order e) :
    MayEnd parts' values allRequired (order.map there) e := by
  cases allRequired with
  | true =>
      intro j unused
      obtain ⟨i, rfl⟩ := h.surjective j
      rw [h.same]
      exact stops i (mt h.mem_map_iff.mpr unused)
  | false =>
      rcases stops with some_used | ⟨i, unused, blank⟩
      · exact Or.inl (by simpa using some_used)
      · refine Or.inr ⟨there i, mt h.mem_map_iff.mp unused, ?_⟩
        rwa [h.same]

theorem mem_ends_of_perm (same : parts.Perm parts') {e : Nat}
    (h : e ∈ (anyOrder allRequired parts values start).ends) :
    e ∈ (anyOrder allRequired parts' values start).ends := by
  obtain ⟨there, reorders⟩ := exists_reorders same
  obtain ⟨order, arranged, stops⟩ := mem_ends_anyOrder_iff_arranges.mp h
  exact mem_ends_anyOrder_iff_arranges.mpr
    ⟨order.map there, reorders.arranges arranged, reorders.mayEnd stops⟩

/-- From the greatest to the least, the same ends are the same list. -/
theorem ends_anyOrder_perm (same : parts.Perm parts') (values : List Value) (start : Nat) :
    (anyOrder allRequired parts values start).ends =
      (anyOrder allRequired parts' values start).ends := by
  have sorted (parts : List Search) :
      (anyOrder allRequired parts values start).ends.Pairwise (· > ·) :=
    sorted_explore List.Pairwise.nil parts.length (start, 0)
  apply (sorted parts).eq_of_mem_iff (sorted parts')
  intro e
  exact ⟨mem_ends_of_perm same, mem_ends_of_perm same.symm⟩

theorem notes_of_perm (same : parts.Perm parts') {entry : Nat × Fault}
    (h : Notes parts values start entry) : Notes parts' values start entry := by
  obtain ⟨there, reorders⟩ := exists_reorders same
  obtain ⟨order, pos, i, arranged, unused, noted⟩ := h
  refine ⟨order.map there, pos, there i, reorders.arranges arranged,
    mt reorders.mem_map_iff.mp unused, ?_⟩
  rwa [reorders.same]

theorem notes_perm (same : parts.Perm parts') :
    Notes parts values start = Notes parts' values start := by
  funext entry
  exact propext ⟨notes_of_perm same, notes_of_perm same.symm⟩

/-- What a fresh record is left with: the hints for the faults that are furthest on. -/
theorem keeps_hints_anyOrder :
    ((Threaded.anyOrder allRequired (parts.map threaded) values start).run ∅).2.Keeps
      fun entry => ∃ fault, Notes parts values start (entry.1, fault) ∧ fault.hint = entry.2 := by
  have hints : ((Threaded.anyOrder allRequired (parts.map threaded) values start).run ∅).2 =
      ∅ ++ (anyOrder allRequired parts values start).faults.map Fault.hint := by
    rw [threaded_anyOrder]
    rfl
  rw [hints]
  exact (Furthest.keeps_empty.append (keeps_faults_anyOrder.map Fault.hint)).congr
    fun entry => by rw [false_or]

/-- **Groups do not depend on the order of their parts.** Whether all parts are required or some,
the parts in another order give the same list of ends, and leave the same hints in a fresh
record. -/
theorem anyOrder_perm (allRequired : Bool) {parts parts' : List Search}
    (same : parts.Perm parts') (values : List Value) (start : Nat) :
    let found (parts : List Search) :=
      (Threaded.anyOrder allRequired (parts.map threaded) values start).run ∅
    (anyOrder allRequired parts values start).ends =
        (anyOrder allRequired parts' values start).ends ∧
      (found parts).1 = (found parts').1 ∧
      ∀ hint, hint ∈ (found parts).2.toList ↔ hint ∈ (found parts').2.toList := by
  intro found
  have ends : (anyOrder allRequired parts values start).ends =
      (anyOrder allRequired parts' values start).ends :=
    ends_anyOrder_perm same values start
  refine ⟨ends, ?_, ?_⟩
  · simp only [found, threaded_anyOrder]
    exact ends
  · intro hint
    rw [keeps_hints_anyOrder.mem_toList_iff, keeps_hints_anyOrder.mem_toList_iff, notes_perm same]

/-- A word, and a function whose argument is wrong: of both orders of the two parts, the ends and
the hint are the same. -/
theorem anyOrder_perm_wrong_argument :
    let f : Search := (Grammar.function "f" (Grammar.word "a")).search
    let b : Search := (Grammar.word "b").search
    let values : List Value := [.token (.ident "b"), .function "f" [.token (.ident "c")]]
    let found (parts : List Search) :=
      (Threaded.anyOrder false (parts.map threaded) values 0).run ∅
    [f, b].Perm [b, f] ∧ (found [f, b]).1 = [1] ∧
      (1, ⟨.malformedFunctionArguments, "invalid arguments to f()"⟩) ∈ (found [f, b]).2.toList := by
  intro f b values found
  have swapped : [f, b].Perm [b, f] := List.Perm.swap b f []
  obtain ⟨-, ends, hints⟩ := anyOrder_perm false swapped values 0
  exact ⟨swapped, ends.trans (by decide +kernel), (hints _).mpr (by decide +kernel)⟩

end CssSieve.Search
