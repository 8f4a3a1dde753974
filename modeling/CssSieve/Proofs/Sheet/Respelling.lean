import CssSieve.Proofs.Value.Respelling
import CssSieve.Sheet.Nesting

/-!
# Sheets in another spelling

A respelling of a sheet changes the names of properties and of at-rules, and the names inside all
values; properties whose names begin with two dashes stay as they are. Readers do not see the
difference: what is read from respelled values is what was read before, respelled in the same way
(`listOfValues_respelled`, for declarations and for rules).
-/

namespace CssSieve

variable (c : Respelling)

/-- The declarations are the same but for the spelling of their names. -/
structure Declaration.Respelled (d e : Declaration) : Prop where
  name : c.names d.name e.name
  value : Value.RespelledAll c d.value e.value
  important : d.important = e.important

mutual

/-- The rules are the same but for the spelling of their names. -/
inductive Rule.Respelled : Rule → Rule → Prop
  | style {p q : List Value} {ds es : List Declaration} : Value.RespelledAll c p q →
      List.Forall₂ (Declaration.Respelled c) ds es →
      Rule.Respelled (.style ⟨p, ds⟩) (.style ⟨q, es⟩)
  | at {a b : String} {p q : List Value} {x y : AtBlock} : c.writes a b →
      Value.RespelledAll c p q → AtBlock.Respelled x y →
      Rule.Respelled (.at ⟨a, p, x⟩) (.at ⟨b, q, y⟩)

inductive AtBlock.Respelled : AtBlock → AtBlock → Prop
  | absent : AtBlock.Respelled .absent .absent
  | raw {vs ws : List Value} : Value.RespelledAll c vs ws →
      AtBlock.Respelled (.raw vs) (.raw ws)
  | declarations {ds es : List Declaration} : List.Forall₂ (Declaration.Respelled c) ds es →
      AtBlock.Respelled (.declarations ds) (.declarations es)
  | rules {rs ss : List Rule} : List.Forall₂ Rule.Respelled rs ss →
      AtBlock.Respelled (.rules rs) (.rules ss)

end

/-- The sheets are the same but for the spelling of their names. -/
def Sheet.Respelled (s t : Sheet) : Prop := List.Forall₂ (Rule.Respelled c) s.rules t.rules

variable {c}

/-! ## Respelling by a function -/

section

variable {f : String → String}

def Declaration.respell (f : String → String) (d : Declaration) : Declaration :=
  ⟨respellName f d.name, Value.respellAll f d.value, d.important⟩

mutual

def AtRule.respell (f : String → String) : AtRule → AtRule
  | ⟨name, prelude, block⟩ => ⟨f name, Value.respellAll f prelude, block.respell f⟩

def AtBlock.respell (f : String → String) : AtBlock → AtBlock
  | .absent => .absent
  | .raw vs => .raw (Value.respellAll f vs)
  | .declarations ds => .declarations (ds.map (·.respell f))
  | .rules rs => .rules (Rule.respellAll f rs)

def Rule.respell (f : String → String) : Rule → Rule
  | .style ⟨prelude, ds⟩ => .style ⟨Value.respellAll f prelude, ds.map (·.respell f)⟩
  | .at r => .at (r.respell f)

def Rule.respellAll (f : String → String) : List Rule → List Rule
  | [] => []
  | r :: rs => r.respell f :: Rule.respellAll f rs

end

/-- The sheet with every name respelled by the function, but for those that begin with two dashes
where the language takes them for names of the author's. -/
def Sheet.respell (f : String → String) (s : Sheet) : Sheet := ⟨Rule.respellAll f s.rules⟩

variable {same : ∀ a, Text.lower (f a) = Text.lower a}

theorem Declaration.respelled_ofFunction_iff {d e : Declaration} :
    d.Respelled (.ofFunction f same) e ↔ e = d.respell f := by
  constructor
  · rintro ⟨name, value, important⟩
    rw [respell, ← names_ofFunction_iff.mp name,
      ← (Value.respelledAll_ofFunction_iff _ _).mp value, important]
  · rintro rfl
    exact ⟨names_ofFunction_iff.mpr rfl, (Value.respelledAll_ofFunction_iff _ _).mpr rfl, rfl⟩

theorem Declaration.respelledAll_ofFunction_iff {ds es : List Declaration} :
    List.Forall₂ (Declaration.Respelled (.ofFunction f same)) ds es ↔
      es = ds.map (·.respell f) := by
  have graph : Declaration.Respelled (.ofFunction f same) = fun d e => d.respell f = e := by
    funext d e
    exact propext (respelled_ofFunction_iff.trans eq_comm)
  rw [graph, ← List.forall₂_map_left_iff, List.forall₂_eq_eq_eq, eq_comm]

mutual

theorem AtBlock.respelled_ofFunction_iff : (x y : AtBlock) →
    (x.Respelled (.ofFunction f same) y ↔ y = x.respell f)
  | .absent, y => by
      constructor
      · rintro ⟨⟩
        rfl
      · rintro rfl
        exact .absent
  | .raw vs, y => by
      constructor
      · rintro ⟨⟩
        next h => rw [(Value.respelledAll_ofFunction_iff _ _).mp h, AtBlock.respell]
      · rintro rfl
        exact .raw ((Value.respelledAll_ofFunction_iff _ _).mpr rfl)
  | .declarations ds, y => by
      constructor
      · rintro ⟨⟩
        next h => rw [Declaration.respelledAll_ofFunction_iff.mp h, AtBlock.respell]
      · rintro rfl
        exact .declarations (Declaration.respelledAll_ofFunction_iff.mpr rfl)
  | .rules rs, y => by
      constructor
      · rintro ⟨⟩
        next h => rw [(Rule.respelledAll_ofFunction_iff rs _).mp h, AtBlock.respell]
      · rintro rfl
        exact .rules ((Rule.respelledAll_ofFunction_iff rs _).mpr rfl)

theorem Rule.respelled_ofFunction_iff : (r s : Rule) →
    (r.Respelled (.ofFunction f same) s ↔ s = r.respell f)
  | .style ⟨p, ds⟩, s => by
      constructor
      · rintro ⟨⟩
        next prelude declarations =>
          rw [Rule.respell, (Value.respelledAll_ofFunction_iff _ _).mp prelude,
            Declaration.respelledAll_ofFunction_iff.mp declarations]
      · rintro rfl
        exact .style ((Value.respelledAll_ofFunction_iff _ _).mpr rfl)
          (Declaration.respelledAll_ofFunction_iff.mpr rfl)
  | .at ⟨name, p, x⟩, s => by
      constructor
      · rintro ⟨⟩
        next written prelude block =>
          rw [Rule.respell, AtRule.respell, (Value.respelledAll_ofFunction_iff _ _).mp prelude,
            (AtBlock.respelled_ofFunction_iff x _).mp block, written]
      · rintro rfl
        exact .at rfl ((Value.respelledAll_ofFunction_iff _ _).mpr rfl)
          ((AtBlock.respelled_ofFunction_iff x _).mpr rfl)

theorem Rule.respelledAll_ofFunction_iff : (rs ss : List Rule) →
    (List.Forall₂ (Rule.Respelled (.ofFunction f same)) rs ss ↔ ss = Rule.respellAll f rs)
  | [], ss => by rw [List.forall₂_nil_left_iff, Rule.respellAll]
  | r :: rs, ss => by
      rw [List.forall₂_cons_left_iff, Rule.respellAll]
      constructor
      · rintro ⟨s, rest, first, others, rfl⟩
        rw [(Rule.respelled_ofFunction_iff r s).mp first,
          (Rule.respelledAll_ofFunction_iff rs rest).mp others]
      · rintro rfl
        exact ⟨_, _, (Rule.respelled_ofFunction_iff r _).mpr rfl,
          (Rule.respelledAll_ofFunction_iff rs _).mpr rfl, rfl⟩

end

theorem Sheet.respelled_ofFunction_iff {s t : Sheet} :
    s.Respelled (.ofFunction f same) t ↔ t = s.respell f := by
  rw [Sheet.Respelled, Rule.respelledAll_ofFunction_iff, respell]
  cases t
  rw [Sheet.mk.injEq]

end

/-! ## Importance -/

theorem Value.Respelled.isImportantWord_eq {v w : Value} (h : v.Respelled c w) :
    v.isImportantWord = w.isImportantWord := by
  cases h with
  | token h =>
      cases h with
      | ident h => exact Text.caseless_congr h.same "important"
      | function _ | atKeyword _ | dimension _ | nameless _ => rfl
  | function _ _ | block _ => rfl

theorem Value.Respelled.isBang_eq {v w : Value} (h : v.Respelled c w) : v.isBang = w.isBang := by
  cases h with
  | token h => cases h <;> rfl
  | function _ _ | block _ => rfl

theorem beforeAnnotation?_respelled {xs ys : List Value} (h : Value.RespelledAll c xs ys) :
    Option.Rel (Value.RespelledAll c) (beforeAnnotation? xs) (beforeAnnotation? ys) := by
  cases h with
  | nil => exact .none
  | cons word rest =>
      rw [beforeAnnotation?, beforeAnnotation?, word.isImportantWord_eq]
      split
      · have stripped := forall₂_dropWhile rest fun _ _ => Value.Respelled.isWhitespace_eq
        generalize List.dropWhile Value.isWhitespace _ = left at stripped ⊢
        generalize List.dropWhile Value.isWhitespace _ = right at stripped ⊢
        cases stripped with
        | nil => exact .none
        | cons bang front =>
            simp only [bang.isBang_eq]
            split
            · exact .some front
            · exact .none
      · exact .none

theorem stripImportant_respelled {xs ys : List Value} (h : Value.RespelledAll c xs ys) :
    Value.RespelledAll c (stripImportant xs).1 (stripImportant ys).1 ∧
      (stripImportant xs).2 = (stripImportant ys).2 := by
  have backwards := forall₂_dropWhile (List.rel_reverse h)
    fun _ _ => Value.Respelled.isWhitespace_eq
  have found := beforeAnnotation?_respelled backwards
  rw [stripImportant, stripImportant]
  generalize beforeAnnotation? (List.dropWhile _ xs.reverse) = left at found ⊢
  generalize beforeAnnotation? (List.dropWhile _ ys.reverse) = right at found ⊢
  cases found with
  | none => exact ⟨List.rel_reverse backwards, rfl⟩
  | some front =>
      have stripped := forall₂_dropWhile front fun _ _ => Value.Respelled.isWhitespace_eq
      exact ⟨List.rel_reverse stripped, rfl⟩

/-! ## Reading declarations -/

/-- Readers that stand in the same place, with what they hold in other spellings. -/
inductive DeclarationReader.Respelled (c : Respelling) :
    DeclarationReader → DeclarationReader → Prop
  | between : Respelled c .between .between
  | afterName {a b : String} : c.names a b → Respelled c (.afterName a) (.afterName b)
  | afterColon {a b : String} : c.names a b → Respelled c (.afterColon a) (.afterColon b)
  | inValue {a b : String} {vs ws : List Value} : c.names a b → Value.RespelledAll c vs ws →
      Respelled c (.inValue a vs) (.inValue b ws)
  | inAtRule : Respelled c .inAtRule .inAtRule
  | skipping : Respelled c .skipping .skipping

/-- Steps to readers that stand in the same place, which give the same declaration if any. -/
structure DeclarationReader.StepRespelled (c : Respelling)
    (s t : DeclarationReader × Option Declaration) : Prop where
  reader : s.1.Respelled c t.1
  given : Option.Rel (Declaration.Respelled c) s.2 t.2

namespace DeclarationReader

variable {a b : String} {xs ys : List Value} {v w : Value}

theorem declare_respelled (name : c.names a b) (h : Value.RespelledAll c xs ys) :
    (declare a xs).Respelled c (declare b ys) := by
  obtain ⟨value, important⟩ := stripImportant_respelled (List.rel_reverse h)
  exact ⟨name, value, important⟩

theorem stepBetween_respelled (h : v.Respelled c w) :
    StepRespelled c (stepBetween v) (stepBetween w) := by
  cases h with
  | @token s t h =>
      cases h with
      | ident h => exact ⟨.afterName h, .none⟩
      | atKeyword _ => exact ⟨.inAtRule, .none⟩
      | function _ | dimension _ => exact ⟨.skipping, .none⟩
      | nameless named =>
          cases s <;> first
            | exact ⟨.between, .none⟩
            | exact ⟨.skipping, .none⟩
            | cases named
  | function _ _ | block _ => exact ⟨.skipping, .none⟩

theorem stepAfterName_respelled (name : c.names a b) (h : v.Respelled c w) :
    StepRespelled c (stepAfterName a v) (stepAfterName b w) := by
  cases h with
  | @token s t h =>
      cases h with
      | ident _ | atKeyword _ | function _ | dimension _ => exact ⟨.skipping, .none⟩
      | nameless named =>
          cases s <;> first
            | exact ⟨.afterName name, .none⟩
            | exact ⟨.afterColon name, .none⟩
            | exact ⟨.between, .none⟩
            | exact ⟨.skipping, .none⟩
  | function _ _ | block _ => exact ⟨.skipping, .none⟩

theorem stepInValue_respelled (name : c.names a b) (value : Value.RespelledAll c xs ys)
    (h : v.Respelled c w) : StepRespelled c (stepInValue a xs v) (stepInValue b ys w) := by
  have longer := List.Forall₂.cons h value
  cases h with
  | @token s t h =>
      cases h with
      | ident _ | atKeyword _ | function _ | dimension _ => exact ⟨.inValue name longer, .none⟩
      | nameless named =>
          cases s <;> first
            | exact ⟨.inValue name longer, .none⟩
            | exact ⟨.between, .some (declare_respelled name value)⟩
  | function _ _ | block _ => exact ⟨.inValue name longer, .none⟩

theorem stepAfterColon_respelled (name : c.names a b) (h : v.Respelled c w) :
    StepRespelled c (stepAfterColon a v) (stepAfterColon b w) := by
  have first := stepInValue_respelled name .nil h
  cases h with
  | @token s t h =>
      cases h with
      | ident _ | atKeyword _ | function _ | dimension _ => exact first
      | nameless named =>
          cases s <;> first
            | exact first
            | exact ⟨.afterColon name, .none⟩
  | function _ _ | block _ => exact first

theorem stepInAtRule_respelled (h : v.Respelled c w) :
    StepRespelled c (stepInAtRule v) (stepInAtRule w) := by
  cases h with
  | @token s t h =>
      cases h with
      | ident _ | atKeyword _ | function _ | dimension _ => exact ⟨.inAtRule, .none⟩
      | nameless named =>
          cases s <;> first
            | exact ⟨.inAtRule, .none⟩
            | exact ⟨.between, .none⟩
  | function _ _ => exact ⟨.inAtRule, .none⟩
  | @block opener vs ws _ =>
      by_cases brace : opener = '\x7b'
      · rw [brace]
        exact ⟨.between, .none⟩
      · have passed (vs : List Value) : stepInAtRule (.block opener vs) = (inAtRule, none) := by
          unfold stepInAtRule
          split <;> simp_all
        rw [passed, passed]
        exact ⟨.inAtRule, .none⟩

theorem stepSkipping_respelled (h : v.Respelled c w) :
    StepRespelled c (stepSkipping v) (stepSkipping w) := by
  cases h with
  | @token s t h =>
      cases h with
      | ident _ | atKeyword _ | function _ | dimension _ => exact ⟨.skipping, .none⟩
      | nameless named =>
          cases s <;> first
            | exact ⟨.skipping, .none⟩
            | exact ⟨.between, .none⟩
  | function _ _ | block _ => exact ⟨.skipping, .none⟩

theorem step_respelled {r s : DeclarationReader} (reader : r.Respelled c s)
    (h : v.Respelled c w) : StepRespelled c (r.step v) (s.step w) := by
  cases reader with
  | between => exact stepBetween_respelled h
  | afterName name => exact stepAfterName_respelled name h
  | afterColon name => exact stepAfterColon_respelled name h
  | inValue name value => exact stepInValue_respelled name value h
  | inAtRule => exact stepInAtRule_respelled h
  | skipping => exact stepSkipping_respelled h

theorem finish_respelled {r s : DeclarationReader} (reader : r.Respelled c s) :
    Option.Rel (Declaration.Respelled c) r.finish s.finish := by
  cases reader with
  | between | afterName _ | inAtRule | skipping => exact .none
  | afterColon name => exact .some (declare_respelled name .nil)
  | inValue name value => exact .some (declare_respelled name value)

theorem run_respelled {r s : DeclarationReader} (reader : r.Respelled c s)
    (h : Value.RespelledAll c xs ys) :
    List.Forall₂ (Declaration.Respelled c) (r.run xs) (s.run ys) := by
  induction h generalizing r s with
  | nil => exact forall₂_toList (finish_respelled reader)
  | cons first _ ih =>
      obtain ⟨next, given⟩ := step_respelled reader first
      exact List.rel_append (forall₂_toList given) (ih next)

end DeclarationReader

theorem Declaration.listOfValues_respelled {xs ys : List Value} (h : Value.RespelledAll c xs ys) :
    List.Forall₂ (Declaration.Respelled c) (listOfValues xs) (listOfValues ys) :=
  DeclarationReader.run_respelled .between h

/-! ## Reading rules -/

/-- Readers that stand in the same place, with what they hold in other spellings. -/
inductive RuleReader.Respelled (c : Respelling) : RuleReader → RuleReader → Prop
  | between : Respelled c .between .between
  | inAtRule {a b : String} {vs ws : List Value} : c.writes a b → Value.RespelledAll c vs ws →
      Respelled c (.inAtRule a vs) (.inAtRule b ws)
  | inStyleRule {vs ws : List Value} : Value.RespelledAll c vs ws →
      Respelled c (.inStyleRule vs) (.inStyleRule ws)

/-- Steps to readers that stand in the same place, which give the same rule if any. -/
structure RuleReader.StepRespelled (c : Respelling) (s t : RuleReader × Option Rule) : Prop where
  reader : s.1.Respelled c t.1
  given : Option.Rel (Rule.Respelled c) s.2 t.2

namespace RuleReader

variable {a b : String} {xs ys vs ws : List Value} {v w : Value}

theorem atRule_respelled (name : c.writes a b) (prelude : Value.RespelledAll c xs ys)
    {x y : AtBlock} (block : x.Respelled c y) :
    (atRule a xs x).Respelled c (atRule b ys y) := by
  have trimmed := Value.RespelledAll.trim (List.rel_reverse prelude)
  exact .at name trimmed block

theorem styleRule_respelled (prelude : Value.RespelledAll c xs ys)
    (contents : Value.RespelledAll c vs ws) :
    (styleRule xs vs).Respelled c (styleRule ys ws) := by
  have trimmed := Value.RespelledAll.trim (List.rel_reverse prelude)
  exact .style trimmed (Declaration.listOfValues_respelled contents)

theorem stepInStyleRule_respelled (prelude : Value.RespelledAll c xs ys) (h : v.Respelled c w) :
    StepRespelled c (stepInStyleRule xs v) (stepInStyleRule ys w) := by
  have longer := List.Forall₂.cons h prelude
  cases h with
  | token _ | function _ _ => exact ⟨.inStyleRule longer, .none⟩
  | @block opener vs ws contents =>
      by_cases brace : opener = '\x7b'
      · subst brace
        exact ⟨.between, .some (styleRule_respelled prelude contents)⟩
      · have passed (vs prelude : List Value) : stepInStyleRule prelude (.block opener vs) =
            (inStyleRule (.block opener vs :: prelude), none) := by
          unfold stepInStyleRule
          split <;> simp_all
        rw [passed, passed]
        exact ⟨.inStyleRule longer, .none⟩

theorem stepInAtRule_respelled (name : c.writes a b) (prelude : Value.RespelledAll c xs ys)
    (h : v.Respelled c w) : StepRespelled c (stepInAtRule a xs v) (stepInAtRule b ys w) := by
  have longer := List.Forall₂.cons h prelude
  cases h with
  | @token s t h =>
      cases h with
      | ident _ | atKeyword _ | function _ | dimension _ => exact ⟨.inAtRule name longer, .none⟩
      | nameless named =>
          cases s <;> first
            | exact ⟨.inAtRule name longer, .none⟩
            | exact ⟨.between, .some (atRule_respelled name prelude .absent)⟩
  | function _ _ => exact ⟨.inAtRule name longer, .none⟩
  | @block opener vs ws contents =>
      by_cases brace : opener = '\x7b'
      · subst brace
        exact ⟨.between, .some (atRule_respelled name prelude (.raw contents))⟩
      · have passed (vs prelude : List Value) (name : String) :
            stepInAtRule name prelude (.block opener vs) =
              (inAtRule name (.block opener vs :: prelude), none) := by
          unfold stepInAtRule
          split <;> simp_all
        rw [passed, passed]
        exact ⟨.inAtRule name longer, .none⟩

theorem stepBetween_respelled (topLevel : Bool) (h : v.Respelled c w) :
    StepRespelled c (stepBetween topLevel v) (stepBetween topLevel w) := by
  have first := stepInStyleRule_respelled .nil h
  cases h with
  | @token s t h =>
      cases h with
      | ident _ | function _ | dimension _ => exact first
      | atKeyword name => exact ⟨.inAtRule name .nil, .none⟩
      | nameless named =>
          cases s <;> cases topLevel <;> first
            | exact first
            | exact ⟨.between, .none⟩
            | cases named
  | function _ _ | block _ => exact first

theorem step_respelled {r s : RuleReader} (topLevel : Bool) (reader : r.Respelled c s)
    (h : v.Respelled c w) : StepRespelled c (r.step topLevel v) (s.step topLevel w) := by
  cases reader with
  | between => exact stepBetween_respelled topLevel h
  | inAtRule name prelude => exact stepInAtRule_respelled name prelude h
  | inStyleRule prelude => exact stepInStyleRule_respelled prelude h

theorem finish_respelled {r s : RuleReader} (reader : r.Respelled c s) :
    Option.Rel (Rule.Respelled c) r.finish s.finish := by
  cases reader with
  | between | inStyleRule _ => exact .none
  | inAtRule name prelude => exact .some (atRule_respelled name prelude .absent)

theorem run_respelled {r s : RuleReader} (topLevel : Bool) (reader : r.Respelled c s)
    (h : Value.RespelledAll c xs ys) :
    List.Forall₂ (Rule.Respelled c) (r.run topLevel xs) (s.run topLevel ys) := by
  induction h generalizing r s with
  | nil => exact forall₂_toList (finish_respelled reader)
  | cons first _ ih =>
      obtain ⟨next, given⟩ := step_respelled topLevel reader first
      exact List.rel_append (forall₂_toList given) (ih next)

end RuleReader

theorem Rule.listOfValues_respelled {xs ys : List Value} (h : Value.RespelledAll c xs ys) :
    List.Forall₂ (Rule.Respelled c) (listOfValues xs) (listOfValues ys) :=
  RuleReader.run_respelled false .between h

/-! ## Blocks of at-rules -/

namespace AtBlock.Respelled

variable {x y : AtBlock}

theorem declarations?_rel (h : x.Respelled c y) :
    Option.Rel (List.Forall₂ (Declaration.Respelled c)) x.declarations? y.declarations? := by
  cases h with
  | absent | rules _ => exact .none
  | raw values => exact .some (Declaration.listOfValues_respelled values)
  | declarations ds => exact .some ds

theorem rules?_rel (h : x.Respelled c y) :
    Option.Rel (List.Forall₂ (Rule.Respelled c)) x.rules? y.rules? := by
  cases h with
  | absent | declarations _ => exact .none
  | raw values => exact .some (Rule.listOfValues_respelled values)
  | rules rs => exact .some rs

end AtBlock.Respelled

end CssSieve
