import CssSieve.Proofs.Grammar.Finding
import Mathlib.Data.List.Induction
import Mathlib.Data.List.Nodup
import Mathlib.Logic.Relation

/-!
# Groups in any order find their spans

A group in any order is searched depth first through states, a state being a position with the set
of parts used. The states visited are those that can be reached: nothing else is ever visited, and
when a state has been left, what can be reached from it in one step has been visited. A state is
reached by using some of the parts in some order, and that is what the span says.
-/

namespace CssSieve.Search

/-! ## Steps between states -/

section

variable (parts : List (Search × Nat)) (values : List Value)

/-- One more part is used, and it consumes something. -/
inductive Uses : Nat × Nat → Nat × Nat → Prop
  | use {pos used e i : Nat} {part : Search} : (part, i) ∈ parts → used.testBit i = false →
      e ∈ (part values pos).ends → e ≠ pos → Uses (pos, used) (e, used ||| 1 <<< i)

/-- How many parts a state has left. -/
def left (used : Nat) : Nat := (parts.filter fun p => !used.testBit p.2).length

/-- What the search does at a state that it has not visited. -/
def visit (allRequired : Bool) (state : Nat × Nat) (x : Exploration) : Exploration :=
  let tries := tryUnused parts values state.1 state.2
  { visited := state :: x.visited
    ends := if mayStop allRequired state.1 state.2 tries then insertEnd state.1 x.ends else x.ends
    faults := tries.foldl (fun f t => f ++ t.1.faults) x.faults }

end

variable {parts : List (Search × Nat)} {values : List Value} {allRequired : Bool}

theorem mem_tryUnused {pos used : Nat} {t : Outcome × Nat} :
    t ∈ tryUnused parts values pos used ↔
      ∃ p ∈ parts, used.testBit p.2 = false ∧ (p.1 values pos, p.2) = t := by
  simp [tryUnused, and_assoc]

theorem mem_successors {state next : Nat × Nat} :
    next ∈ successors state.1 state.2 (tryUnused parts values state.1 state.2) ↔
      Uses parts values state next := by
  rw [successors, List.mem_flatMap]
  constructor
  · rintro ⟨t, ht, hnext⟩
    obtain ⟨⟨part, i⟩, hpart, unused, rfl⟩ := mem_tryUnused.mp ht
    obtain ⟨e, he, rfl⟩ := List.mem_map.mp hnext
    obtain ⟨he, progress⟩ := List.mem_filter.mp he
    exact Uses.use hpart unused he (by simpa using progress)
  · rintro ⟨hpart, unused, he, progress⟩
    refine ⟨_, mem_tryUnused.mpr ⟨_, hpart, unused, rfl⟩, List.mem_map.mpr ⟨_, ?_, rfl⟩⟩
    exact List.mem_filter.mpr ⟨he, by simpa using progress⟩

theorem testBit_use {used i j : Nat} :
    (used ||| 1 <<< i).testBit j = (used.testBit j || i == j) := by
  rw [Nat.testBit_or, Nat.one_shiftLeft, Nat.testBit_two_pow]
  rfl

/-- A step uses a part up. -/
theorem Uses.left_lt {state next : Nat × Nat} (h : Uses parts values state next) :
    left parts next.2 < left parts state.2 := by
  cases h with
  | @use pos used e i part hpart unused =>
      -- what is left of the next state is what is left of this one, without the part used
      have narrowed : (parts.filter fun p => !(used ||| 1 <<< i).testBit p.2) =
          (parts.filter fun p => !used.testBit p.2).filter (i != ·.2) := by
        rw [List.filter_filter]
        congr 1
        funext p
        rw [testBit_use, Bool.not_or, Bool.and_comm]
        rfl
      rw [left, left, narrowed, List.length_filter_lt_length_iff_exists]
      exact ⟨(part, i), List.mem_filter.mpr ⟨hpart, by simp [unused]⟩, by simp⟩

/-- At the start, no more parts are left than there are. -/
theorem left_zero_le (parts : List Search) : left parts.zipIdx 0 ≤ parts.length := by
  have few := List.length_filter_le (fun p : Search × Nat => !(0 : Nat).testBit p.2) parts.zipIdx
  rwa [List.length_zipIdx] at few

/-! ## What is visited -/

theorem explore_visited {n : Nat} {state : Nat × Nat} {x : Exploration} (h : state ∈ x.visited) :
    explore allRequired parts values n state x = x := by
  rw [explore, if_pos (List.contains_iff_mem.mpr h)]

theorem explore_zero {state : Nat × Nat} {x : Exploration} (h : state ∉ x.visited) :
    explore allRequired parts values 0 state x = visit parts values allRequired state x := by
  rw [explore, if_neg (by simpa using h)]
  rfl

theorem explore_succ {n : Nat} {state : Nat × Nat} {x : Exploration} (h : state ∉ x.visited) :
    explore allRequired parts values (n + 1) state x =
      (successors state.1 state.2 (tryUnused parts values state.1 state.2)).foldr
        (explore allRequired parts values n) (visit parts values allRequired state x) := by
  rw [explore, if_neg (by simpa using h)]
  rfl

/-- Where no part is left, there is no state to go on to. -/
theorem successors_eq_nil {state : Nat × Nat} (none_left : left parts state.2 = 0) :
    successors state.1 state.2 (tryUnused parts values state.1 state.2) = [] := by
  refine List.eq_nil_iff_forall_not_mem.mpr fun next hn => ?_
  have := (mem_successors.mp hn).left_lt
  omega

/-- What a visit preserves, an exploration preserves. Something is known of the states that it comes
to, if it is known of the first one and every use of a part preserves it. -/
theorem explore_preserves {motive : Exploration → Prop} {Known : Nat × Nat → Prop}
    (visits : ∀ {state x}, Known state → motive x →
      motive (visit parts values allRequired state x))
    (uses : ∀ {state next}, Known state → Uses parts values state next → Known next)
    {n : Nat} {state : Nat × Nat} {x : Exploration} (known : Known state) (holds : motive x) :
    motive (explore allRequired parts values n state x) := by
  induction n generalizing state x with
  | zero =>
      by_cases seen : state ∈ x.visited
      · rwa [explore_visited seen]
      · rw [explore_zero seen]
        exact visits known holds
  | succ n ih =>
      by_cases seen : state ∈ x.visited
      · rwa [explore_visited seen]
      · rw [explore_succ seen]
        refine List.foldrRecOn _ _ (visits known holds) ?_
        intro y hy next hn
        exact ih (uses known (mem_successors.mp hn)) hy

/-- Induction along an exploration that may use all parts that are left. A state visited before is
left at once; at any other, the states that come next are explored, the last one first. -/
theorem explore_induction {motive : Nat × Nat → Exploration → Exploration → Prop}
    (again : ∀ {state x}, state ∈ x.visited → motive state x x)
    (first : ∀ {state x} {f : Nat × Nat → Exploration → Exploration}, state ∉ x.visited →
      (∀ next ∈ successors state.1 state.2 (tryUnused parts values state.1 state.2), ∀ y,
        motive next y (f next y)) →
      motive state x ((successors state.1 state.2 (tryUnused parts values state.1 state.2)).foldr f
        (visit parts values allRequired state x)))
    {n : Nat} {state : Nat × Nat} (enough : left parts state.2 ≤ n) (x : Exploration) :
    motive state x (explore allRequired parts values n state x) := by
  induction n generalizing state x with
  | zero =>
      by_cases seen : state ∈ x.visited
      · rw [explore_visited seen]
        exact again seen
      · have nowhere :
            successors state.1 state.2 (tryUnused parts values state.1 state.2) = [] :=
          successors_eq_nil (Nat.le_zero.mp enough)
        have alone := first (f := fun _ y => y) seen fun next hn => by simp [nowhere] at hn
        rw [explore_zero seen]
        rwa [nowhere] at alone
  | succ n ih =>
      by_cases seen : state ∈ x.visited
      · rw [explore_visited seen]
        exact again seen
      · rw [explore_succ seen]
        refine first seen fun next hn => ?_
        have := (mem_successors.mp hn).left_lt
        exact ih (by omega)

/-- An exploration continued. All that is new has been left, so its successors have been visited. -/
structure Extends (parts : List (Search × Nat)) (values : List Value) (x y : Exploration) :
    Prop where
  grown : ∀ s ∈ x.visited, s ∈ y.visited
  done : ∀ s ∈ y.visited, s ∈ x.visited ∨ ∀ next, Uses parts values s next → next ∈ y.visited

theorem Extends.refl (x : Exploration) : Extends parts values x x :=
  ⟨fun _ hs => hs, fun _ hs => Or.inl hs⟩

theorem Extends.trans {x y z : Exploration} (hxy : Extends parts values x y)
    (hyz : Extends parts values y z) : Extends parts values x z := by
  constructor
  · intro s hs
    exact hyz.grown s (hxy.grown s hs)
  · intro s hs
    rcases hyz.done s hs with hy | closed
    · rcases hxy.done s hy with hx | closed
      · exact Or.inl hx
      · exact Or.inr fun next hn => hyz.grown next (closed next hn)
    · exact Or.inr closed

/-- Leaving a state: it was visited, and the exploration went on to all its successors. -/
theorem Extends.of_visit {state : Nat × Nat} {x y : Exploration}
    (h : Extends parts values (visit parts values allRequired state x) y)
    (closed : ∀ next, Uses parts values state next → next ∈ y.visited) :
    Extends parts values x y := by
  constructor
  · intro s hs
    exact h.grown s (List.mem_cons_of_mem state hs)
  · intro s hs
    rcases h.done s hs with hv | later
    · rcases List.mem_cons.mp hv with rfl | hx
      · exact Or.inr closed
      · exact Or.inl hx
    · exact Or.inr later

theorem foldr_extends {states : List (Nat × Nat)} {f : Nat × Nat → Exploration → Exploration}
    (h : ∀ s ∈ states, ∀ x, Extends parts values x (f s x) ∧ s ∈ (f s x).visited)
    (x : Exploration) :
    Extends parts values x (states.foldr f x) ∧ ∀ s ∈ states, s ∈ (states.foldr f x).visited := by
  induction states with
  | nil => exact ⟨Extends.refl x, fun s hs => absurd hs List.not_mem_nil⟩
  | cons s rest ih =>
      obtain ⟨before, among⟩ := ih fun t ht => h t (List.mem_cons_of_mem s ht)
      obtain ⟨after, here⟩ := h s List.mem_cons_self (rest.foldr f x)
      refine ⟨before.trans after, ?_⟩
      intro t ht
      rcases List.mem_cons.mp ht with rfl | ht
      · exact here
      · exact after.grown t (among t ht)

theorem explore_extends {n : Nat} {state : Nat × Nat} (enough : left parts state.2 ≤ n)
    (x : Exploration) :
    Extends parts values x (explore allRequired parts values n state x) ∧
      state ∈ (explore allRequired parts values n state x).visited := by
  refine explore_induction
    (motive := fun state x y => Extends parts values x y ∧ state ∈ y.visited) ?_ ?_ enough x
  · intro state x seen
    exact ⟨Extends.refl x, seen⟩
  · intro state x f unseen successors_done
    obtain ⟨extended, among⟩ := foldr_extends successors_done
      (visit parts values allRequired state x)
    refine ⟨extended.of_visit fun next hn => among next (mem_successors.mpr hn), ?_⟩
    exact extended.grown state List.mem_cons_self

/-- Begun with nothing visited, an exploration misses no state that can be reached. -/
theorem Extends.complete {ends : List Nat} {faults : Furthest Fault} {y : Exploration}
    (h : Extends parts values ⟨[], ends, faults⟩ y) {start s : Nat × Nat}
    (first : start ∈ y.visited) (reached : Relation.ReflTransGen (Uses parts values) start s) :
    s ∈ y.visited := by
  induction reached with
  | refl => exact first
  | tail _ step ih => exact (h.done _ ih).resolve_left List.not_mem_nil _ step

/-- What is found is right: the states visited can be reached, and the ends are those of the states
visited where the search may stop. -/
structure Sound (parts : List (Search × Nat)) (values : List Value) (allRequired : Bool)
    (start : Nat × Nat) (x : Exploration) : Prop where
  reached : ∀ s ∈ x.visited, Relation.ReflTransGen (Uses parts values) start s
  recorded : ∀ e, e ∈ x.ends ↔ ∃ used, (e, used) ∈ x.visited ∧
    mayStop allRequired e used (tryUnused parts values e used)

theorem Sound.nothing {start : Nat × Nat} : Sound parts values allRequired start ⟨[], [], ∅⟩ :=
  ⟨fun s hs => absurd hs List.not_mem_nil, fun e => by simp⟩

theorem Sound.visit {start state : Nat × Nat} {x : Exploration}
    (h : Sound parts values allRequired start x)
    (reached : Relation.ReflTransGen (Uses parts values) start state) :
    Sound parts values allRequired start (visit parts values allRequired state x) := by
  obtain ⟨pos, used⟩ := state
  constructor
  · intro s hs
    rcases List.mem_cons.mp hs with rfl | hs
    · exact reached
    · exact h.reached s hs
  · intro e
    have ends_iff : e ∈ (Search.visit parts values allRequired (pos, used) x).ends ↔
        e = pos ∧ mayStop allRequired pos used (tryUnused parts values pos used) ∨
          e ∈ x.ends := by
      simp only [Search.visit]
      split
      next stops => simp [mem_insertEnd, stops]
      next goes_on => simp [goes_on]
    rw [ends_iff, h.recorded e]
    simp only [Search.visit, List.mem_cons, Prod.mk.injEq]
    constructor
    · rintro (⟨rfl, stops⟩ | ⟨u, hu, stops⟩)
      · exact ⟨used, Or.inl ⟨rfl, rfl⟩, stops⟩
      · exact ⟨u, Or.inr hu, stops⟩
    · rintro ⟨u, ⟨rfl, rfl⟩ | hu, stops⟩
      · exact Or.inl ⟨rfl, stops⟩
      · exact Or.inr ⟨u, hu, stops⟩

theorem explore_sound {n : Nat} {start state : Nat × Nat} {x : Exploration}
    (h : Sound parts values allRequired start x)
    (reached : Relation.ReflTransGen (Uses parts values) start state) :
    Sound parts values allRequired start (explore allRequired parts values n state x) :=
  explore_preserves (fun reached h => h.visit reached) (fun reached step => reached.tail step)
    reached h

/-- All that is found from a position. -/
def explored (allRequired : Bool) (parts : List Search) (values : List Value) (start : Nat) :
    Exploration :=
  explore allRequired parts.zipIdx values parts.length (start, 0) ⟨[], [], ∅⟩

theorem explored_sound (parts : List Search) (start : Nat) :
    Sound parts.zipIdx values allRequired (start, 0) (explored allRequired parts values start) :=
  explore_sound Sound.nothing Relation.ReflTransGen.refl

/-- The states visited are those that can be reached. -/
theorem mem_visited_explored {parts : List Search} {start : Nat} {state : Nat × Nat} :
    state ∈ (explored allRequired parts values start).visited ↔
      Relation.ReflTransGen (Uses parts.zipIdx values) (start, 0) state := by
  have extended : Extends parts.zipIdx values ⟨[], [], ∅⟩
      (explored allRequired parts values start) ∧
        (start, 0) ∈ (explored allRequired parts values start).visited :=
    explore_extends (left_zero_le parts) _
  exact ⟨(explored_sound parts start).reached state, extended.1.complete extended.2⟩

theorem mem_ends_anyOrder {parts : List Search} {start e : Nat} :
    e ∈ (anyOrder allRequired parts values start).ends ↔
      ∃ used, Relation.ReflTransGen (Uses parts.zipIdx values) (start, 0) (e, used) ∧
        mayStop allRequired e used (tryUnused parts.zipIdx values e used) := by
  have recorded : e ∈ (explored allRequired parts values start).ends ↔ _ :=
    (explored_sound parts start).recorded e
  simp only [mem_visited_explored] at recorded
  exact recorded

/-! ## What the states stand for -/

/-- Some parts as the bits of a number. -/
def mask {n : Nat} (used : List (Fin n)) : Nat := used.foldl (fun bits i => bits ||| 1 <<< i.val) 0

theorem mask_concat {n : Nat} {used : List (Fin n)} {i : Fin n} :
    mask (used ++ [i]) = mask used ||| 1 <<< i.val := by
  simp [mask]

theorem testBit_mask {n : Nat} {used : List (Fin n)} {i : Fin n} :
    (mask used).testBit i = true ↔ i ∈ used := by
  induction used using List.reverseRecOn with
  | nil => simp [mask]
  | append_singleton used j ih =>
      rw [mask_concat, testBit_use, Bool.or_eq_true, ih, beq_iff_eq, List.mem_append,
        List.mem_singleton, Fin.val_inj, eq_comm (a := i)]

theorem testBit_mask_eq_false {n : Nat} {used : List (Fin n)} {i : Fin n} :
    (mask used).testBit i = false ↔ i ∉ used := by
  rw [← testBit_mask, Bool.not_eq_true]

theorem mask_ne_zero {n : Nat} {used : List (Fin n)} : mask used ≠ 0 ↔ used ≠ [] := by
  constructor
  · rintro h rfl
    exact h rfl
  · intro h zero
    obtain ⟨i, hi⟩ := List.exists_mem_of_ne_nil used h
    rw [← testBit_mask, zero, Nat.zero_testBit] at hi
    cases hi

section

variable {parts : List Search} {spans : List Span} (h : FindsAll parts spans)
include h

theorem mem_zipIdx_finds {part : Search} {i : Nat} (hpart : (part, i) ∈ parts.zipIdx) :
    ∃ hi : i < spans.length, part.Finds (spans.get ⟨i, hi⟩) := by
  rw [List.mk_mem_zipIdx_iff_getElem?] at hpart
  obtain ⟨hi, rfl⟩ := List.getElem?_eq_some_iff.mp hpart
  have hi' : i < spans.length := h.length_eq ▸ hi
  exact ⟨hi', h.get hi hi'⟩

theorem exists_mem_zipIdx (i : Fin spans.length) :
    ∃ part, (part, i.val) ∈ parts.zipIdx ∧ part.Finds (spans.get i) := by
  have hi : i.val < parts.length := Nat.lt_of_lt_of_eq i.isLt h.length_eq.symm
  refine ⟨parts[i.val], ?_, h.get hi i.isLt⟩
  rw [List.mk_mem_zipIdx_iff_getElem?]
  exact List.getElem?_eq_getElem hi

theorem uses_iff {pos used e used' : Nat} :
    Uses parts.zipIdx values (pos, used) (e, used') ↔ ∃ i : Fin spans.length,
      used.testBit i = false ∧ Span.nonempty (spans.get i) values pos e ∧
        used' = used ||| 1 <<< i.val := by
  constructor
  · rintro ⟨hpart, unused, he, progress⟩
    obtain ⟨hi, finds⟩ := mem_zipIdx_finds h hpart
    exact ⟨⟨_, hi⟩, unused, ⟨(finds values pos e).mp he, progress⟩, rfl⟩
  · rintro ⟨i, unused, ⟨he, progress⟩, rfl⟩
    obtain ⟨part, hpart, finds⟩ := exists_mem_zipIdx h i
    exact Uses.use hpart unused ((finds values pos e).mpr he) progress

/-- The states reached are the lists of parts, in the order they are used. -/
theorem reached_iff {start e used : Nat} :
    Relation.ReflTransGen (Uses parts.zipIdx values) (start, 0) (e, used) ↔
      ∃ order : List (Fin spans.length), order.Nodup ∧ mask order = used ∧
        Span.inOrder false (order.map fun i => Span.nonempty (spans.get i)) values start e := by
  constructor
  -- the part used last is the last of the order, so both directions go from the end
  · intro reached
    generalize hs : (e, used) = s at reached
    induction reached generalizing e used with
    | refl =>
        cases hs
        exact ⟨[], List.nodup_nil, rfl, rfl⟩
    | @tail s _ _ step ih =>
        subst hs
        obtain ⟨pos, before⟩ := s
        obtain ⟨i, unused, he, rfl⟩ := (uses_iff h).mp step
        obtain ⟨order, nodup, rfl, first⟩ := ih rfl
        have new := testBit_mask_eq_false.mp unused
        refine ⟨order ++ [i], ?_, mask_concat, ?_⟩
        · rw [← List.concat_eq_append, List.nodup_concat]
          exact ⟨new, nodup⟩
        · rw [List.map_append, List.map_singleton, Span.inOrder_concat]
          exact ⟨pos, first, he⟩
  · rintro ⟨order, nodup, rfl, spanned⟩
    induction order using List.reverseRecOn generalizing e with
    | nil =>
        obtain rfl : e = start := spanned
        exact Relation.ReflTransGen.refl
    | append_singleton order i ih =>
        rw [List.map_append, List.map_singleton, Span.inOrder_concat] at spanned
        obtain ⟨pos, first, last⟩ := spanned
        rw [← List.concat_eq_append, List.nodup_concat] at nodup
        refine (ih nodup.2 first).tail ((uses_iff h).mpr ?_)
        exact ⟨i, testBit_mask_eq_false.mpr nodup.1, last, mask_concat⟩

theorem mayStop_iff {order : List (Fin spans.length)} {e : Nat} :
    mayStop allRequired e (mask order) (tryUnused parts.zipIdx values e (mask order)) ↔
      if allRequired then ∀ i, i ∉ order → spans.get i values e e
      else order ≠ [] ∨ ∃ span ∈ spans, span values e e := by
  cases allRequired with
  | true =>
      simp only [mayStop, if_true, List.all_eq_true, List.contains_iff_mem]
      constructor
      · intro all i unused
        obtain ⟨part, hpart, finds⟩ := exists_mem_zipIdx h i
        have tried : (part values e, i.val) ∈ tryUnused parts.zipIdx values e (mask order) :=
          mem_tryUnused.mpr ⟨_, hpart, testBit_mask_eq_false.mpr unused, rfl⟩
        exact (finds values e e).mp (all _ tried)
      · intro all t ht
        obtain ⟨⟨part, i⟩, hpart, unused, rfl⟩ := mem_tryUnused.mp ht
        obtain ⟨hi, finds⟩ := mem_zipIdx_finds h hpart
        exact (finds values e e).mpr (all ⟨i, hi⟩ (testBit_mask_eq_false.mp unused))
  | false =>
      simp only [mayStop, Bool.false_eq_true, if_false, Bool.or_eq_true, bne_iff_ne, mask_ne_zero,
        List.any_eq_true, List.contains_iff_mem]
      constructor
      · rintro (some_used | ⟨t, ht, he⟩)
        · exact Or.inl some_used
        · obtain ⟨⟨part, i⟩, hpart, -, rfl⟩ := mem_tryUnused.mp ht
          obtain ⟨hi, finds⟩ := mem_zipIdx_finds h hpart
          exact Or.inr ⟨spans[i], List.getElem_mem hi, (finds values e e).mp he⟩
      · rintro (some_used | ⟨span, hspan, he⟩)
        · exact Or.inl some_used
        -- a part that matches nothing is tried for sure only while none is used
        · by_cases none_used : order = []
          · obtain ⟨i, hi, rfl⟩ := List.getElem_of_mem hspan
            obtain ⟨part, hpart, finds⟩ := exists_mem_zipIdx h ⟨i, hi⟩
            have unused : (mask order).testBit i = false := by
              rw [none_used]
              exact Nat.zero_testBit i
            exact Or.inr ⟨_, mem_tryUnused.mpr ⟨_, hpart, unused, rfl⟩, (finds values e e).mpr he⟩
          · exact Or.inl none_used

theorem anyOrder_finds (allRequired : Bool) :
    (anyOrder allRequired parts).Finds (Span.anyOrder allRequired spans) := by
  intro values start e
  rw [mem_ends_anyOrder, Span.anyOrder]
  constructor
  · rintro ⟨used, reached, stops⟩
    obtain ⟨order, nodup, rfl, spanned⟩ := (reached_iff h).mp reached
    exact ⟨order, nodup, spanned, (mayStop_iff h).mp stops⟩
  · rintro ⟨order, nodup, spanned, stops⟩
    exact ⟨mask order, (reached_iff h).mpr ⟨order, nodup, rfl, spanned⟩, (mayStop_iff h).mpr stops⟩

end

end CssSieve.Search
