import CssSieve.Grammar.Threaded
import CssSieve.Proofs.Grammar.Climbing
import CssSieve.Proofs.Grammar.Exploring
import CssSieve.Proofs.Grammar.Recording

/-!
# Threaded searches are searches

A threaded search finds what the search finds that gives its faults back beside its ends
(`threaded_eq`). Whatever the record holds to begin with, the ends are those of the search, and its
faults are noted behind what was there.
-/

namespace CssSieve

/-! ## Results with the faults noted for them -/

namespace Noting

variable {α β : Type}

/-- A result, with faults noted behind what was there. -/
def giving (b : β) (faults : Furthest Fault) : Noting β :=
  fun before => (b, before ++ faults.map Fault.hint)

theorem pure_eq_giving (b : β) : (pure b : Noting β) = giving b ∅ := rfl

theorem bind_giving {k : α → Noting β} {a : α} {b : β} {f g : Furthest Fault}
    (h : k a = giving b g) : giving a f >>= k = giving b (f ++ g) := by
  funext before
  -- what is noted next comes behind what stands in the record by then
  show k a (before ++ f.map Fault.hint) = (b, before ++ (f ++ g).map Fault.hint)
  rw [h, Furthest.append_map_append]
  rfl

/-- What comes next notes nothing. -/
theorem bind_quiet {k : α → Noting β} {a : α} {b : β} {f : Furthest Fault} (h : k a = pure b) :
    giving a f >>= k = giving b f := bind_giving (h.trans (pure_eq_giving b))

theorem note_eq_giving (offset : Nat) (fault : Fault) :
    note offset fault = giving () ((∅ : Furthest Fault).record offset fault) := by
  funext before
  exact congrArg (Prod.mk ()) (Furthest.append_map_record Fault.hint before ∅ offset fault).symm

end Noting

/-- The faults of several results, brought together in turn. -/
def total {α : Type} (faults : α → Furthest Fault) (as : List α) : Furthest Fault :=
  as.foldr (fun a f => faults a ++ f) ∅

theorem foldl_eq_append_total {α : Type} (faults : α → Furthest Fault) (as : List α)
    (f : Furthest Fault) : as.foldl (fun f a => f ++ faults a) f = f ++ total faults as := by
  induction as generalizing f with
  | nil => rfl
  | cons a as ih => rw [List.foldl_cons, ih, Furthest.append_assoc, total, total, List.foldr_cons]

theorem collect_map {α β γ : Type} (f : β → Noting (List γ)) (g : α → β) (as : List α) :
    collect f (as.map g) = collect (f ∘ g) as := by
  induction as with
  | nil => rfl
  | cons a as ih => rw [List.map_cons, collect, ih, collect, Function.comp_apply]

theorem collect_giving {α β : Type} {f : α → Noting (List β)} {found : α → List β}
    {faults : α → Furthest Fault} {as : List α}
    (h : ∀ a ∈ as, f a = Noting.giving (found a) (faults a)) :
    collect f as = Noting.giving (as.flatMap found) (total faults as) := by
  induction as with
  | nil => rfl
  | cons a as ih =>
      obtain ⟨here, others⟩ := List.forall_mem_cons.mp h
      rw [collect, here, ih others]
      exact Noting.bind_giving (Noting.bind_quiet rfl)

/-- What one more repetition finds, as a computation that is handed a record. -/
def Rung.noting (r : Rung) : Noting (List Nat × List Nat) := Noting.giving (r.ends, r.blanks) r.faults

/-- Levels as a computation that is handed a record. -/
def Levels.noting (l : Levels) : Noting (List (List Nat) × List Nat) :=
  Noting.giving (l.levels, l.blanks) l.faults

namespace Outcome

/-- The outcome as a computation that is handed a record. -/
def noting (a : Outcome) : Noting (List Nat) := Noting.giving a.ends a.faults

theorem gather_eq {α : Type} (f : α → Outcome) (as : List α) :
    gather f as = ⟨as.flatMap fun a => (f a).ends, total (fun a => (f a).faults) as⟩ := by
  induction as with
  | nil => rfl
  | cons a as ih => rw [gather, ih, append, List.flatMap_cons, total, total, List.foldr_cons]

theorem collect_noting {α : Type} {f : α → Noting (List Nat)} {g : α → Outcome} {as : List α}
    (h : ∀ a ∈ as, f a = (g a).noting) : collect f as = (gather g as).noting := by
  rw [gather_eq]
  exact collect_giving h

end Outcome

namespace Search

/-- The search as one that is handed a record. -/
def threaded (s : Search) : Threaded := fun values start => (s values start).noting

/-! ## Single values -/

theorem threaded_quiet {s : Search} (h : ∀ values start, (s values start).faults = ∅) :
    Threaded.quiet s = s.threaded := by
  funext values start
  rw [threaded, Outcome.noting, h values start]
  rfl

theorem faults_one (accepts : Value → Bool) (values : List Value) (start : Nat) :
    (one accepts values start).faults = ∅ := by
  rw [one]
  split
  next => split <;> rfl
  next => rfl

theorem faults_whitespace (required : Bool) (values : List Value) (start : Nat) :
    (whitespace required values start).faults = ∅ := by
  rw [whitespace]
  split <;> rfl

theorem faults_noWhitespace (values : List Value) (start : Nat) :
    (noWhitespace values start).faults = ∅ := by
  rw [noWhitespace]
  split <;> rfl

theorem threaded_group (inside : Value → Option (List Value)) (fault : Fault) (contents : Search) :
    Threaded.group inside fault contents.threaded = (group inside fault contents).threaded := by
  funext values start
  rw [Threaded.group, threaded, group]
  cases nextValue? values start with
  | none => rfl
  | some found =>
      obtain ⟨i, v⟩ := found
      dsimp only
      cases inside v with
      | none => rfl
      | some vs =>
          -- a record of its own starts empty, so the contents are matched as by the search
          have same : Threaded.matchesAll contents.threaded vs = contents.matchesAll vs := rfl
          dsimp only
          rw [same]
          split
          next => rfl
          next =>
            rw [Noting.note_eq_giving]
            exact Noting.bind_quiet rfl

/-! ## Alternatives and sequences -/

theorem threaded_oneOf (parts : List Search) :
    Threaded.oneOf (parts.map threaded) = (oneOf parts).threaded := by
  funext values start
  have asked : collect (fun part => part values start) (parts.map threaded) =
      (Outcome.gather (fun part => part values start) parts).noting := by
    rw [collect_map]
    exact Outcome.collect_noting fun part _ => rfl
  rw [Threaded.oneOf, asked]
  exact Noting.bind_quiet rfl

theorem threaded_onceMore (part : Search) (comma : Bool) (values : List Value) (pos : Nat) :
    Threaded.onceMore part.threaded comma values pos = (onceMore part comma values pos).noting := by
  rw [Threaded.onceMore, onceMore]
  cases afterGap? comma values pos with
  | none => rfl
  | some p => rfl

theorem threaded_fromEach (comma : Bool) (part : Search) (values : List Value)
    (positions : List Nat) :
    Threaded.fromEach comma part.threaded values positions =
      (fromEach comma part values positions).noting := by
  have asked : collect (Threaded.onceMore part.threaded comma values) positions =
      (Outcome.gather (onceMore part comma values) positions).noting :=
    Outcome.collect_noting fun pos _ => threaded_onceMore part comma values pos
  rw [Threaded.fromEach, asked]
  exact Noting.bind_quiet rfl

theorem threaded_inOrderFrom (commas : Bool) (values : List Value) (parts : List Search)
    (positions : List Nat) :
    Threaded.inOrderFrom commas values (parts.map threaded) positions =
      (inOrderFrom commas values parts positions).noting := by
  induction parts generalizing positions with
  | nil => rfl
  | cons part parts ih =>
      rw [List.map_cons, Threaded.inOrderFrom, threaded_fromEach, inOrderFrom]
      exact Noting.bind_giving (ih (fromEach commas part values positions).ends)

theorem threaded_inOrder (commas : Bool) (parts : List Search) :
    Threaded.inOrder commas (parts.map threaded) = (inOrder commas parts).threaded := by
  funext values start
  cases parts with
  | nil => rfl
  | cons part parts =>
      rw [List.map_cons, Threaded.inOrder, threaded_fromEach]
      exact Noting.bind_giving
        (threaded_inOrderFrom commas values parts (fromEach false part values [start]).ends)

/-! ## Repetitions -/

theorem threaded_rung (part : Search) (comma : Bool) (values : List Value) (positions : List Nat) :
    Threaded.rung part.threaded comma values positions =
      (rung part comma values positions).noting := by
  induction positions with
  | nil => rfl
  | cons pos rest ih =>
      rw [Threaded.rung, threaded_onceMore, ih]
      exact Noting.bind_giving (Noting.bind_quiet rfl)

/-- A step of the threaded climb, with what is left out of the level and what is tried by then. -/
theorem threadedClimb_succ (m : Multiplier) (part : Threaded) (values : List Value)
    (steps count : Nat) (tried level : List Nat) :
    Threaded.climb m part values (steps + 1) count tried level =
      if m.allows (count + 1) then do
        let above ← Threaded.rung part (m.commas && count != 0) values (fresh m count tried level)
        let next := distinct above.1
        if next.isEmpty then pure ([level], above.2)
        else do
          let rest ← Threaded.climb m part values steps (count + 1)
            (remembered m count tried level) next
          pure (level :: rest.1, above.2 ++ rest.2)
      else pure ([level], []) := rfl

theorem threaded_climb (m : Multiplier) (part : Search) (values : List Value) (steps count : Nat)
    (tried level : List Nat) :
    Threaded.climb m part.threaded values steps count tried level =
      (climb m part values steps count tried level).noting := by
  induction steps generalizing count tried level with
  | zero => rfl
  | succ steps ih =>
      rw [threadedClimb_succ, climb_succ]
      by_cases allowed : m.allows (count + 1) = true
      · rw [if_pos allowed, if_pos allowed, threaded_rung]
        by_cases none_next : (distinct (above m part values count tried level).ends).isEmpty = true
        · rw [if_pos none_next]
          exact Noting.bind_quiet (if_pos none_next)
        -- the faults of the next level come first, those of the levels above it behind them
        · rw [if_neg none_next]
          refine Noting.bind_giving ((if_neg none_next).trans ?_)
          rw [ih]
          exact Noting.bind_quiet rfl
      · rw [if_neg allowed, if_neg allowed]
        rfl

theorem threaded_repeated (m : Multiplier) (part : Search) :
    Threaded.repeated m part.threaded = (repeated m part).threaded := by
  funext values start
  have climbed : Threaded.climb m part.threaded values (values.length - start + 1) 0 [] [start] =
      (levelsFrom m part values start).noting := threaded_climb m part values _ 0 [] [start]
  rw [Threaded.repeated, climbed, threaded, repeated]
  generalize levelsFrom m part values start = all
  dsimp only
  -- with repetitions, but too few of them, one more hint is left behind those of the climb
  by_cases few : (distinct ((all.levels.drop m.least).reverse.flatten ++ all.blanks)).isEmpty &&
      all.levels.length - 1 != 0
  · have noted := Furthest.append_record all.faults ∅ (all.levels.flatten.foldl max start)
      (.repetitions m.least (all.levels.length - 1))
    rw [if_pos few, Outcome.noting, ← Furthest.append_empty all.faults, ← noted]
    refine Noting.bind_giving ((if_pos few).trans ?_)
    rw [Noting.note_eq_giving]
    exact Noting.bind_quiet rfl
  · rw [if_neg few]
    exact Noting.bind_quiet (if_neg few)

/-! ## Groups in any order -/

/-- The tries as they are asked for. -/
def asked (tries : List (Outcome × Nat)) : List (Noting (List Nat) × Nat) :=
  tries.map fun t => (t.1.noting, t.2)

/-- The faults of all tries. -/
def faultsOf (tries : List (Outcome × Nat)) : Furthest Fault := total (·.1.faults) tries

theorem threaded_unused (parts : List (Search × Nat)) (values : List Value) (pos used : Nat) :
    Threaded.unused (parts.map (Prod.map threaded id)) values pos used =
      asked (tryUnused parts values pos used) := by
  rw [Threaded.unused, asked, tryUnused, List.filter_map, List.map_map, List.map_map]
  rfl

/-- Noting these faults before those of all tries makes no difference. -/
def Ahead (tries : List (Outcome × Nat)) (faults : Furthest Fault) : Prop :=
  ∀ before : Furthest Fault, before ++ faults ++ faultsOf tries = before ++ faultsOf tries

theorem ahead_empty (tries : List (Outcome × Nat)) : Ahead tries ∅ := by
  intro before
  rw [Furthest.append_empty]

theorem Ahead.cons {tries : List (Outcome × Nat)} {faults : Furthest Fault}
    (h : Ahead tries faults) (t : Outcome × Nat) : Ahead (t :: tries) (t.1.faults ++ faults) := by
  intro before
  calc before ++ (t.1.faults ++ faults) ++ (t.1.faults ++ faultsOf tries)
      = before ++ t.1.faults ++ faults ++ t.1.faults ++ faultsOf tries := by
        simp only [Furthest.append_assoc]
    _ = before ++ t.1.faults ++ faults ++ faultsOf tries := by
        rw [Furthest.append_append_absorb]
    _ = before ++ t.1.faults ++ faultsOf tries := h (before ++ t.1.faults)
    _ = before ++ (t.1.faults ++ faultsOf tries) := Furthest.append_assoc _ _ _

theorem blank_asked (pos : Nat) (t : Outcome × Nat) :
    Threaded.blank pos (t.1.noting, t.2) = Noting.giving (t.1.ends.contains pos) t.1.faults :=
  Noting.bind_quiet rfl

theorem allM_blank (pos : Nat) (tries : List (Outcome × Nat)) :
    ∃ faults, (asked tries).allM (Threaded.blank pos) =
      Noting.giving (tries.all (·.1.ends.contains pos)) faults ∧ Ahead tries faults := by
  induction tries with
  | nil => exact ⟨∅, rfl, ahead_empty []⟩
  | cons t tries ih =>
      obtain ⟨faults, asks, ahead⟩ := ih
      rw [asked, List.map_cons, List.allM, blank_asked, List.all_cons]
      -- the first try that is not blank is the last one asked for
      cases here : t.1.ends.contains pos with
      | true => exact ⟨t.1.faults ++ faults, Noting.bind_giving asks, ahead.cons t⟩
      | false => exact ⟨t.1.faults, Noting.bind_quiet rfl, (ahead_empty tries).cons t⟩

theorem anyM_blank (pos : Nat) (tries : List (Outcome × Nat)) :
    ∃ faults, (asked tries).anyM (Threaded.blank pos) =
      Noting.giving (tries.any (·.1.ends.contains pos)) faults ∧ Ahead tries faults := by
  induction tries with
  | nil => exact ⟨∅, rfl, ahead_empty []⟩
  | cons t tries ih =>
      obtain ⟨faults, asks, ahead⟩ := ih
      rw [asked, List.map_cons, List.anyM, blank_asked, List.any_cons]
      cases here : t.1.ends.contains pos with
      | true => exact ⟨t.1.faults, Noting.bind_quiet rfl, (ahead_empty tries).cons t⟩
      | false => exact ⟨t.1.faults ++ faults, Noting.bind_giving asks, ahead.cons t⟩

/-- To find out whether the search may stop, some tries are asked for once more than their faults
are needed, and these are the first ones. -/
theorem threaded_mayStop (allRequired : Bool) (pos used : Nat) (tries : List (Outcome × Nat)) :
    ∃ faults, Threaded.mayStop allRequired pos used (asked tries) =
      Noting.giving (mayStop allRequired pos used tries) faults ∧ Ahead tries faults := by
  cases allRequired with
  | true => exact allM_blank pos tries
  | false =>
      by_cases some_used : (used != 0) = true
      · refine ⟨∅, ?_, ahead_empty tries⟩
        simp only [Threaded.mayStop, mayStop, Bool.false_eq_true, if_false, some_used, if_true,
          Bool.true_or]
        rfl
      · obtain ⟨faults, asks, ahead⟩ := anyM_blank pos tries
        refine ⟨faults, ?_, ahead⟩
        simp only [Threaded.mayStop, mayStop, Bool.false_eq_true, if_false, some_used, asks,
          Bool.false_or]

theorem threaded_successors (pos used : Nat) (tries : List (Outcome × Nat)) :
    Threaded.successors pos used (asked tries) =
      Noting.giving (successors pos used tries) (faultsOf tries) := by
  rw [Threaded.successors, asked, collect_map]
  exact collect_giving fun t _ => Noting.bind_quiet rfl

/-- What has been found, with its faults in a record behind what was there. -/
def handed (x : Exploration) (before : Furthest Hint) :
    (List (Nat × Nat) × List Nat) × Furthest Hint :=
  ((x.visited, x.ends), before ++ x.faults.map Fault.hint)

section

variable (parts : List (Search × Nat)) (values : List Value) (allRequired : Bool)

theorem threaded_visit (state : Nat × Nat) (x : Exploration) (before : Furthest Hint) :
    (Threaded.visit allRequired (parts.map (Prod.map threaded id)) values state
        (x.visited, x.ends)).run (before ++ x.faults.map Fault.hint) =
      (((handed (visit parts values allRequired state x) before).1,
          successors state.1 state.2 (tryUnused parts values state.1 state.2)),
        (handed (visit parts values allRequired state x) before).2) := by
  obtain ⟨faults, stops, ahead⟩ := threaded_mayStop allRequired state.1 state.2
    (tryUnused parts values state.1 state.2)
  -- what was asked for first is asked for again, so that it was noted before makes no difference
  have noted : (visit parts values allRequired state x).faults =
      x.faults ++ faults ++ faultsOf (tryUnused parts values state.1 state.2) := by
    rw [ahead, faultsOf, ← foldl_eq_append_total]
    rfl
  rw [Threaded.visit, threaded_unused, stops, threaded_successors, handed, noted,
    Furthest.append_map_append, Furthest.append_map_append]
  rfl

/-- States are visited one by one, the last one first. -/
theorem threaded_foldrM {n : Nat} {before : Furthest Hint}
    (each : ∀ (state : Nat × Nat) (x : Exploration),
      (Threaded.explore allRequired (parts.map (Prod.map threaded id)) values n state
          (x.visited, x.ends)).run (before ++ x.faults.map Fault.hint) =
        handed (explore allRequired parts values n state x) before)
    (states : List (Nat × Nat)) (x : Exploration) :
    (states.foldrM (Threaded.explore allRequired (parts.map (Prod.map threaded id)) values n)
        (x.visited, x.ends)).run (before ++ x.faults.map Fault.hint) =
      handed (states.foldr (explore allRequired parts values n) x) before := by
  induction states with
  | nil => rfl
  | cons state states ih =>
      rw [List.foldrM_cons, StateT.run_bind, ih, List.foldr_cons]
      exact each state _

theorem threaded_explore (n : Nat) (state : Nat × Nat) (x : Exploration)
    (before : Furthest Hint) :
    (Threaded.explore allRequired (parts.map (Prod.map threaded id)) values n state
        (x.visited, x.ends)).run (before ++ x.faults.map Fault.hint) =
      handed (explore allRequired parts values n state x) before := by
  induction n generalizing state x with
  | zero =>
      by_cases seen : state ∈ x.visited
      · rw [explore_visited seen, Threaded.explore, if_pos (List.contains_iff_mem.mpr seen)]
        rfl
      · rw [explore_zero seen, Threaded.explore, if_neg (by simpa using seen), StateT.run_bind,
          threaded_visit]
        rfl
  | succ n ih =>
      by_cases seen : state ∈ x.visited
      · rw [explore_visited seen, Threaded.explore, if_pos (List.contains_iff_mem.mpr seen)]
        rfl
      · rw [explore_succ seen, Threaded.explore, if_neg (by simpa using seen), StateT.run_bind,
          threaded_visit]
        exact threaded_foldrM parts values allRequired ih _ _

end

theorem threaded_anyOrder (allRequired : Bool) (parts : List Search) :
    Threaded.anyOrder allRequired (parts.map threaded) = (anyOrder allRequired parts).threaded := by
  funext values start before
  have parted : (parts.map threaded).zipIdx = parts.zipIdx.map (Prod.map threaded id) :=
    List.zipIdx_map
  have explores : (Threaded.explore allRequired (parts.zipIdx.map (Prod.map threaded id)) values
      parts.length (start, 0) ([], [])).run before =
        handed (explored allRequired parts values start) before :=
    threaded_explore parts.zipIdx values allRequired parts.length (start, 0) ⟨[], [], ∅⟩ before
  rw [Threaded.anyOrder, parted, List.length_map]
  show StateT.run (Threaded.explore _ _ _ _ _ _ >>= _) before = _
  rw [StateT.run_bind, explores]
  rfl

end Search

namespace Grammar

mutual

/-- **Handing on a record finds the same.** The ends are those of the search, and its faults are
noted behind what was there. -/
theorem threaded_eq : (g : Grammar) → g.threaded = Search.threaded g.search
  | keyword words => Search.threaded_quiet (Search.faults_one _)
  | token kind test => Search.threaded_quiet (Search.faults_one _)
  | customProperty => Search.threaded_quiet (Search.faults_one _)
  | delim chars => Search.threaded_quiet (Search.faults_one _)
  | whitespace required => Search.threaded_quiet (Search.faults_whitespace required)
  | noWhitespace => Search.threaded_quiet Search.faults_noWhitespace
  | function name g => by
      rw [threaded, threaded_eq g]
      exact Search.threaded_group _ _ _
  | block opener g => by
      rw [threaded, threaded_eq g]
      exact Search.threaded_group _ _ _
  | oneOf gs => by
      rw [threaded, threadeds_eq gs]
      exact Search.threaded_oneOf _
  | inOrder commas gs => by
      rw [threaded, threadeds_eq gs]
      exact Search.threaded_inOrder commas _
  | repeated m g => by
      rw [threaded, threaded_eq g]
      exact Search.threaded_repeated m _
  | anyOrder all gs => by
      rw [threaded, threadeds_eq gs]
      exact Search.threaded_anyOrder all _

theorem threadeds_eq : (gs : List Grammar) → threadeds gs = (searches gs).map Search.threaded
  | [] => rfl
  | g :: gs => by rw [threadeds, threaded_eq g, threadeds_eq gs, searches, List.map_cons]

end

end Grammar

end CssSieve
