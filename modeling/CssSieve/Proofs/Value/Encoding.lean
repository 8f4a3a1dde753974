import CssSieve.Value.Json

/-!
# Component values read from JSON

What is written as JSON is read back as it was: a token by the name of its kind, a function or block
with its contents. JSON has numbers for finite floats only, and integers are read with sixty-four
bits, so this is said of values that hold no others.
-/

namespace CssSieve

/-- Where every item is read back, so is the list. -/
theorem mapM_map_eq_some {α : Type} {write : α → Json} {read : Json → Option α} {as : List α}
    (h : ∀ a ∈ as, read (write a) = some a) : (as.map write).mapM read = some as := by
  induction as with
  | nil => rfl
  | cons a as ih =>
      have tail := ih fun b hb => h b (List.mem_cons_of_mem a hb)
      rw [List.map_cons, List.mapM_cons, h a List.mem_cons_self, tail]
      rfl

/-! ## Tokens -/

/-- The value is finite and the integer, if there is one, has sixty-four bits. -/
def Numeric.IsEncodable (n : Numeric) : Prop :=
  n.value.isFinite ∧ ∀ i ∈ n.intValue, Int64.minValue.toInt ≤ i ∧ i ≤ Int64.maxValue.toInt

/-- The numeric part of the token, if it has one, can be written. -/
def Token.IsEncodable (t : Token) : Prop := ∀ n ∈ t.numeric?, n.IsEncodable

theorem HashFlag.ofJson?_name (f : HashFlag) : HashFlag.ofJson? (.string f.name) = some f := by
  cases f <;> rfl

theorem NumericFlag.ofJson?_name (f : NumericFlag) :
    NumericFlag.ofJson? (.string f.name) = some f := by
  cases f <;> rfl

theorem TokenKind.ofName?_name (k : TokenKind) : TokenKind.ofName? k.name = some k := by
  cases k <;> rfl

theorem Json.char?_singleton (c : Char) :
    (Json.string (String.singleton c)).char? = some c := by
  simp [Json.char?]

theorem Json.member?_cons (k key : String) (j : Json) (ms : List (String × Json)) :
    (Json.object ((k, j) :: ms)).member? key =
      if k = key then some j else (Json.object ms).member? key := by
  by_cases h : k = key <;> simp [Json.member?, Json.members?, h]

theorem Numeric.ofJson?_members {n : Numeric} (h : n.IsEncodable) (more : List (String × Json)) :
    Numeric.ofJson? (.object (n.members ++ more)) = some n := by
  obtain ⟨x, i, flag⟩ := n
  obtain ⟨finite, bits⟩ := h
  have value : (Json.float x).float? = some x := if_pos finite
  cases i with
  | none =>
      simp [Numeric.ofJson?, Numeric.members, Json.member?_cons, value, NumericFlag.ofJson?_name]
  | some i =>
      have int : (Json.int i).int64? = some i := if_pos (bits i rfl)
      simp [Numeric.ofJson?, Numeric.members, Json.member?_cons, value, int,
        NumericFlag.ofJson?_name]

theorem Token.ofPayload?_payload {t : Token} (h : t.IsEncodable) {j : Json}
    (carried : t.payload? = some j) : ofPayload? t.kind j = some t := by
  cases t with
  | hash s f =>
      cases carried
      simp [ofPayload?, kind, Json.member?_cons, Json.string?, HashFlag.ofJson?_name]
  | delim c =>
      cases carried
      simp [ofPayload?, kind, Json.char?_singleton]
  | number n | percentage n =>
      cases carried
      have read := Numeric.ofJson?_members (h n rfl) []
      rw [List.append_nil] at read
      simp [ofPayload?, kind, read]
  | dimension n unit =>
      cases carried
      have read := Numeric.ofJson?_members (h n rfl) [("unit", .string unit)]
      have unit : (Json.object (n.members ++ [("unit", .string unit)])).member? "unit" =
          some (.string unit) := by
        simp [Numeric.members, Json.member?_cons]
      simp [ofPayload?, kind, read, unit, Json.string?]
  | _ => cases carried <;> rfl

theorem Token.plain?_kind {t : Token} :
    t.kind.plain? = if t.payload?.isSome then none else some t := by
  cases t <;> rfl

theorem Token.ofJson?_toJson {t : Token} (h : t.IsEncodable) : Token.ofJson? t.toJson = some t := by
  rw [toJson]
  split
  next payload carried =>
    have plain : t.kind.plain? = none := by simp [plain?_kind, carried]
    simp [ofJson?, Json.tag, Json.tagged?, TokenKind.ofName?_name, plain,
      ofPayload?_payload h carried]
  next carried =>
    have plain : t.kind.plain? = some t := by simp [plain?_kind, carried]
    simp [ofJson?, Json.tagged?, TokenKind.ofName?_name, plain]

/-! ## Component values -/

namespace Value

mutual

/-- Every token in the value can be written. -/
def IsEncodable : Value → Prop
  | token t => t.IsEncodable
  | function _ vs | block _ vs => AreEncodable vs

def AreEncodable : List Value → Prop
  | [] => True
  | v :: vs => v.IsEncodable ∧ AreEncodable vs

end

theorem ofJson?_tag_token (j : Json) :
    ofJson? (.tag "Token" j) = (Token.ofJson? j).map token := by
  rw [Json.tag]
  cases j <;> simp [ofJson?]

mutual

theorem ofJson?_toJson : (v : Value) → v.IsEncodable → ofJson? v.toJson = some v
  | token t, h => by
      rw [toJson, ofJson?_tag_token, Token.ofJson?_toJson h]
      rfl
  | function name vs, h => by
      have contents := ofJsonAll?_toJsonAll vs h
      simp [toJson, Json.tag, ofJson?, valueMember?, Json.member?_cons, Json.string?, contents]
  | block c vs, h => by
      have contents := ofJsonAll?_toJsonAll vs h
      simp [toJson, Json.tag, ofJson?, valueMember?, Json.member?_cons, Json.char?_singleton,
        contents]

theorem ofJsonAll?_toJsonAll : (vs : List Value) → AreEncodable vs →
    ofJsonAll? (toJsonAll vs) = some vs
  | [], _ => rfl
  | v :: vs, h => by
      rw [toJsonAll, ofJsonAll?, ofJson?_toJson v h.1, ofJsonAll?_toJsonAll vs h.2]
      rfl

end

theorem toJsonAll_eq_map (vs : List Value) : toJsonAll vs = vs.map toJson := by
  induction vs with
  | nil => rfl
  | cons v vs ih => rw [toJsonAll, ih, List.map_cons]

theorem isEncodable_of_mem {vs : List Value} (h : AreEncodable vs) : ∀ v ∈ vs, v.IsEncodable := by
  induction vs with
  | nil => simp
  | cons v vs ih =>
      intro w hw
      rcases List.mem_cons.mp hw with rfl | hw
      · exact h.1
      · exact ih h.2 w hw

/-- A list of values under a key. -/
theorem list?_toJsonAll {vs : List Value} (h : AreEncodable vs) :
    (Json.array (toJsonAll vs)).list? ofJson? = some vs := by
  rw [toJsonAll_eq_map]
  exact mapM_map_eq_some fun v hv => ofJson?_toJson v (isEncodable_of_mem h v hv)

end Value

end CssSieve
