import CssSieve.Grammar.Basic
import Mathlib.Data.List.Forall2

/-!
# Values in another spelling

A `Respelling` says which spellings may stand for which; it only ever changes the case of ASCII
letters. Applied to values it changes identifiers, the names of functions, at-keywords and the units
of dimensions, at every depth. Identifiers that begin with two dashes stay as they are, and so do
strings, urls, hashes, delimiters and numbers. A spelling may have several others, so different
occurrences of one name may come to be written differently.
-/

namespace CssSieve

/-! ## ASCII case -/

namespace Text

theorem caseless_congr {a b : String} (same : lower a = lower b) (w : String) :
    caseless a w = caseless b w := by
  rw [caseless, same, caseless]

theorem caselessMem_congr {a b : String} (same : lower a = lower b) (words : List String) :
    caselessMem a words = caselessMem b words := by
  simp only [caselessMem, caseless_comm _ a, caseless_comm _ b, caseless_congr same]

theorem toLower_eq_dash_iff {c : Char} : c.toLower = '-' ↔ c = '-' := by
  by_cases h : c.val ≥ 'A'.val ∧ c.val ≤ 'Z'.val
  · have lowered : c.toLower = ⟨c.val + 32, _⟩ := dif_pos h
    have bounds : 65 ≤ c.val.toNat ∧ c.val.toNat ≤ 90 := by
      simpa [UInt32.le_iff_toNat_le] using h
    have thirtyTwo : (32 : UInt32).toNat = 32 := rfl
    have dash : ('-').val.toNat = 45 := rfl
    have value {d : Char} (same : d = '-') : d.val.toNat = 45 := by rw [same, dash]
    constructor
    · intro same
      have sum := value same
      rw [lowered, UInt32.toNat_add, thirtyTwo] at sum
      omega
    · intro same
      have := value same
      omega
  · rw [toLower_eq_self h]

theorem startsWith_lower (s : String) : (lower s).startsWith "--" = s.startsWith "--" := by
  have dashes : ("--" : String).toList = ['-', '-'] := rfl
  rw [Bool.eq_iff_iff, String.startsWith_string_iff, String.startsWith_string_iff, lower,
    String.toList_map, dashes]
  rcases s.toList with _ | ⟨c, _ | ⟨d, rest⟩⟩
  · simp
  · simp
  · simp [List.cons_prefix_cons, eq_comm (a := '-'), toLower_eq_dash_iff]

theorem startsWith_congr {a b : String} (same : lower a = lower b) :
    a.startsWith "--" = b.startsWith "--" := by
  rw [← startsWith_lower a, same, startsWith_lower]

end Text

theorem startsWith_of_isCustomPropertyName {name : String} (h : isCustomPropertyName name) :
    name.startsWith "--" := by
  rw [String.startsWith_string_iff]
  rw [isCustomPropertyName] at h
  split at h
  next rest found => exact ⟨_, found.symm⟩
  next => cases h

/-! ## Respellings -/

/-- Which spellings may stand for which: they differ in the case of ASCII letters at most. -/
structure Respelling where
  writes : String → String → Prop
  same : ∀ {a b : String}, writes a b → Text.lower a = Text.lower b

namespace Respelling

/-- The respelling that a function gives. -/
def ofFunction (f : String → String) (same : ∀ a, Text.lower (f a) = Text.lower a) :
    Respelling where
  writes a b := b = f a
  same h := h ▸ (same _).symm

variable (c : Respelling) {a b : String}

/-- How identifiers and properties are respelled: those that begin with two dashes not at all. -/
def names (a b : String) : Prop := if a.startsWith "--" then a = b else c.writes a b

variable {c}

theorem names.same (h : c.names a b) : Text.lower a = Text.lower b := by
  rw [names] at h
  split at h
  · rw [h]
  · exact c.same h

theorem names.eq_of_dashed (h : c.names a b) (dashed : a.startsWith "--") : a = b := by
  rwa [names, if_pos dashed] at h

theorem names.isCustomPropertyName_eq (h : c.names a b) :
    isCustomPropertyName a = isCustomPropertyName b := by
  by_cases dashed : a.startsWith "--"
  · rw [h.eq_of_dashed dashed]
  · have dashed' : ¬b.startsWith "--" := by rwa [← Text.startsWith_congr h.same]
    have left := mt startsWith_of_isCustomPropertyName dashed
    have right := mt startsWith_of_isCustomPropertyName dashed'
    rw [Bool.eq_false_iff.mpr left, Bool.eq_false_iff.mpr right]

end Respelling

/-! ## Tokens and values -/

/-- Whether the token carries a name that can be respelled. -/
def Token.isNamed : Token → Bool
  | ident _ | function _ | atKeyword _ | dimension _ _ => true
  | _ => false

/-- The tokens are the same but for the spelling of their names. -/
inductive Token.Respelled (c : Respelling) : Token → Token → Prop
  | ident {a b : String} : c.names a b → Respelled c (.ident a) (.ident b)
  | function {a b : String} : c.writes a b → Respelled c (.function a) (.function b)
  | atKeyword {a b : String} : c.writes a b → Respelled c (.atKeyword a) (.atKeyword b)
  | dimension {n : Numeric} {a b : String} : c.writes a b →
      Respelled c (.dimension n a) (.dimension n b)
  | nameless {t : Token} : t.isNamed = false → Respelled c t t

/-- The values are the same but for the spelling of their names, at every depth. -/
inductive Value.Respelled (c : Respelling) : Value → Value → Prop
  | token {s t : Token} : s.Respelled c t → Respelled c (.token s) (.token t)
  | function {a b : String} {vs ws : List Value} : c.writes a b →
      List.Forall₂ (Respelled c) vs ws → Respelled c (.function a vs) (.function b ws)
  | block {opener : Char} {vs ws : List Value} : List.Forall₂ (Respelled c) vs ws →
      Respelled c (.block opener vs) (.block opener ws)

/-- Values that are the same but for the spelling of their names, one by one. -/
abbrev Value.RespelledAll (c : Respelling) : List Value → List Value → Prop :=
  List.Forall₂ (Value.Respelled c)

variable {c : Respelling}

theorem Token.Respelled.kind_eq {s t : Token} (h : s.Respelled c t) : s.kind = t.kind := by
  cases h <;> rfl

theorem Token.Respelled.numeric?_eq {s t : Token} (h : s.Respelled c t) :
    s.numeric? = t.numeric? := by
  cases h <;> rfl

/-- What a token says is the same up to case. -/
theorem Token.Respelled.text?_rel {s t : Token} (h : s.Respelled c t) :
    Option.Rel (fun a b => Text.lower a = Text.lower b) s.text? t.text? := by
  cases h with
  | ident h => exact .some h.same
  | function h => exact .some (c.same h)
  | atKeyword h => exact .some (c.same h)
  | dimension h => exact .none
  | nameless _ =>
      cases s.text? with
      | none => exact .none
      | some _ => exact .some rfl

theorem Token.Respelled.unit?_rel {s t : Token} (h : s.Respelled c t) :
    Option.Rel (fun a b => Text.lower a = Text.lower b) s.unit? t.unit? := by
  cases h with
  | ident h => exact .none
  | function h => exact .none
  | atKeyword h => exact .none
  | dimension h => exact .some (c.same h)
  | nameless _ =>
      cases s.unit? with
      | none => exact .none
      | some _ => exact .some rfl

theorem Value.Respelled.isWhitespace_eq {v w : Value} (h : v.Respelled c w) :
    v.isWhitespace = w.isWhitespace := by
  cases h with
  | token h => cases h <;> rfl
  | function _ _ => rfl
  | block _ => rfl

theorem Value.Respelled.isComma_eq {v w : Value} (h : v.Respelled c w) :
    v.isComma = w.isComma := by
  cases h with
  | token h => cases h <;> rfl
  | function _ _ => rfl
  | block _ => rfl

/-! ## Respelling by a function -/

section

variable {f : String → String}

/-- The identifier or property respelled, unless it begins with two dashes. -/
def respellName (f : String → String) (name : String) : String :=
  if name.startsWith "--" then name else f name

def Token.respell (f : String → String) : Token → Token
  | ident name => ident (respellName f name)
  | function name => function (f name)
  | atKeyword name => atKeyword (f name)
  | dimension n unit => dimension n (f unit)
  | t => t

mutual

def Value.respell (f : String → String) : Value → Value
  | token t => token (t.respell f)
  | function name vs => function (f name) (respellAll f vs)
  | block opener vs => block opener (respellAll f vs)

def Value.respellAll (f : String → String) : List Value → List Value
  | [] => []
  | v :: vs => v.respell f :: respellAll f vs

end

variable {same : ∀ a, Text.lower (f a) = Text.lower a}

theorem names_ofFunction_iff {a b : String} :
    (Respelling.ofFunction f same).names a b ↔ b = respellName f a := by
  rw [Respelling.names, respellName]
  split
  · exact eq_comm
  · exact Iff.rfl

theorem Token.respelled_ofFunction_iff {s t : Token} :
    s.Respelled (.ofFunction f same) t ↔ t = s.respell f := by
  constructor
  · intro h
    cases h with
    | ident h => rw [names_ofFunction_iff.mp h, respell]
    | function h | atKeyword h | dimension h => rw [h, respell]
    | nameless named => cases s <;> first | rfl | cases named
  · rintro rfl
    cases s with
    | ident name => exact .ident (names_ofFunction_iff.mpr rfl)
    | function name => exact .function rfl
    | atKeyword name => exact .atKeyword rfl
    | dimension n unit => exact .dimension rfl
    | _ => exact .nameless rfl

mutual

theorem Value.respelled_ofFunction_iff : (v w : Value) →
    (v.Respelled (.ofFunction f same) w ↔ w = v.respell f)
  | token t, w => by
      constructor
      · rintro ⟨h⟩
        rw [Token.respelled_ofFunction_iff.mp h, respell]
      · rintro rfl
        exact .token (Token.respelled_ofFunction_iff.mpr rfl)
  | function name vs, w => by
      constructor
      · intro h
        cases h with
        | function written held =>
            rw [written, (respelledAll_ofFunction_iff vs _).mp held, respell]
      · rintro rfl
        exact .function rfl ((respelledAll_ofFunction_iff vs _).mpr rfl)
  | block opener vs, w => by
      constructor
      · intro h
        cases h with
        | block held => rw [(respelledAll_ofFunction_iff vs _).mp held, respell]
      · rintro rfl
        exact .block ((respelledAll_ofFunction_iff vs _).mpr rfl)

theorem Value.respelledAll_ofFunction_iff : (vs ws : List Value) →
    (Value.RespelledAll (.ofFunction f same) vs ws ↔ ws = Value.respellAll f vs)
  | [], ws => by rw [RespelledAll, List.forall₂_nil_left_iff, respellAll]
  | v :: vs, ws => by
      rw [RespelledAll, List.forall₂_cons_left_iff, respellAll]
      constructor
      · rintro ⟨w, rest, first, others, rfl⟩
        rw [(respelled_ofFunction_iff v w).mp first,
          (respelledAll_ofFunction_iff vs rest).mp others]
      · rintro rfl
        exact ⟨_, _, (respelled_ofFunction_iff v _).mpr rfl,
          (respelledAll_ofFunction_iff vs _).mpr rfl, rfl⟩

end

end

/-! ## Lists related member by member -/

section

variable {α β : Type} {R : α → β → Prop} {as : List α} {bs : List β} {p : α → Bool} {q : β → Bool}

theorem forall₂_dropWhile (h : List.Forall₂ R as bs) (same : ∀ a b, R a b → p a = q b) :
    List.Forall₂ R (as.dropWhile p) (bs.dropWhile q) := by
  induction h with
  | nil => exact .nil
  | @cons a b _ _ first rest ih =>
      rw [List.dropWhile_cons, List.dropWhile_cons, same a b first]
      split
      · exact ih
      · exact .cons first rest

theorem length_takeWhile_eq (h : List.Forall₂ R as bs) (same : ∀ a b, R a b → p a = q b) :
    (as.takeWhile p).length = (bs.takeWhile q).length := by
  induction h with
  | nil => rfl
  | @cons a b _ _ first _ ih =>
      rw [List.takeWhile_cons, List.takeWhile_cons, same a b first]
      split
      · rw [List.length_cons, List.length_cons, ih]
      · rfl

theorem forall₂_toList {a : Option α} {b : Option β} (h : Option.Rel R a b) :
    List.Forall₂ R a.toList b.toList := by
  cases h with
  | none => exact .nil
  | some h => exact .cons h .nil

theorem rel_getElem? (h : List.Forall₂ R as bs) (i : Nat) : Option.Rel R as[i]? bs[i]? := by
  induction h generalizing i with
  | nil => exact .none
  | cons first _ ih =>
      cases i with
      | zero => exact .some first
      | succ i => simpa using ih i

end

namespace Value.RespelledAll

variable {xs ys : List Value}

theorem trimEnd (h : RespelledAll c xs ys) : RespelledAll c (trimEnd xs) (trimEnd ys) := by
  apply List.rel_reverse
  exact forall₂_dropWhile (List.rel_reverse h) fun _ _ => Respelled.isWhitespace_eq

theorem trim (h : RespelledAll c xs ys) : RespelledAll c (trim xs) (trim ys) :=
  forall₂_dropWhile h.trimEnd fun _ _ => Respelled.isWhitespace_eq

theorem skipWhitespace_eq (h : RespelledAll c xs ys) (pos : Nat) :
    skipWhitespace xs pos = skipWhitespace ys pos := by
  have blanks := length_takeWhile_eq (List.forall₂_drop pos h) fun _ _ => Respelled.isWhitespace_eq
  rw [skipWhitespace, blanks, skipWhitespace]

/-- The next values stand at the same position and are spellings of each other. -/
theorem nextValue?_rel (h : RespelledAll c xs ys) (pos : Nat) :
    Option.Rel (fun found found' => found.1 = found'.1 ∧ found.2.Respelled c found'.2)
      (nextValue? xs pos) (nextValue? ys pos) := by
  have both := rel_getElem? h (skipWhitespace xs pos)
  rw [nextValue?, nextValue?, ← h.skipWhitespace_eq pos]
  generalize skipWhitespace xs pos = i at both
  generalize xs[i]? = v, ys[i]? = w at both
  cases both with
  | none => exact .none
  | some same => exact .some ⟨rfl, same⟩

theorem afterGap?_eq (h : RespelledAll c xs ys) (comma : Bool) (pos : Nat) :
    afterGap? comma xs pos = afterGap? comma ys pos := by
  have both := h.nextValue?_rel pos
  cases comma with
  | false => rfl
  | true =>
      rw [afterGap?, if_pos rfl, afterGap?, if_pos rfl, afterComma?, afterComma?]
      generalize nextValue? xs pos = found, nextValue? ys pos = found' at both
      cases both with
      | none => rfl
      | some same => simp only [same.1, same.2.isComma_eq]

end Value.RespelledAll

end CssSieve
