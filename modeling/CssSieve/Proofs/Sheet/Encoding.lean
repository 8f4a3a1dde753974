import CssSieve.Proofs.Value.Encoding
import CssSieve.Sheet.Json

/-!
# Style sheets read from JSON

Declarations, rules and whole sheets are read back from JSON as they were written, with every form
that the block of an at-rule can have and however deeply rules nest.
-/

namespace CssSieve

namespace Declaration

def IsEncodable (d : Declaration) : Prop := Value.AreEncodable d.value

theorem ofJson?_toJson {d : Declaration} (h : d.IsEncodable) :
    Declaration.ofJson? d.toJson = some d := by
  have value := Value.list?_toJsonAll h
  simp [toJson, ofJson?, Json.member?_cons, Json.string?, value, Json.bool?]

end Declaration

namespace StyleRule

def IsEncodable (r : StyleRule) : Prop :=
  Value.AreEncodable r.prelude ∧ ∀ d ∈ r.declarations, d.IsEncodable

theorem ofJson?_toJson {r : StyleRule} (h : r.IsEncodable) :
    StyleRule.ofJson? r.toJson = some r := by
  have prelude := Value.list?_toJsonAll h.1
  have declarations : (Json.array (r.declarations.map Declaration.toJson)).list?
      Declaration.ofJson? = some r.declarations :=
    mapM_map_eq_some fun d hd => Declaration.ofJson?_toJson (h.2 d hd)
  simp [toJson, ofJson?, Json.member?_cons, prelude, declarations]

end StyleRule

mutual

def AtRule.IsEncodable : AtRule → Prop
  | ⟨_, prelude, block⟩ => Value.AreEncodable prelude ∧ block.IsEncodable

def AtBlock.IsEncodable : AtBlock → Prop
  | .absent => True
  | .raw vs => Value.AreEncodable vs
  | .declarations ds => ∀ d ∈ ds, d.IsEncodable
  | .rules rs => Rule.AreEncodable rs

/-- Every token in the rule can be written. -/
def Rule.IsEncodable : Rule → Prop
  | .style r => r.IsEncodable
  | .at r => r.IsEncodable

def Rule.AreEncodable : List Rule → Prop
  | [] => True
  | r :: rs => r.IsEncodable ∧ Rule.AreEncodable rs

end

def Sheet.IsEncodable (s : Sheet) : Prop := Rule.AreEncodable s.rules

mutual

theorem AtRule.ofJson?_toJson : (r : AtRule) → r.IsEncodable → AtRule.ofJson? r.toJson = some r
  | ⟨name, prelude, block⟩, h => by
      have values := Value.list?_toJsonAll h.1
      have inside := AtBlock.ofJson?_toJson block h.2
      simp [AtRule.toJson, AtRule.ofJson?, AtRule.ofMembers?, AtRule.withBlock?, Json.member?_cons,
        Json.string?, values, inside]

theorem AtBlock.ofJson?_toJson :
    (b : AtBlock) → b.IsEncodable → AtBlock.ofJson? b.toJson = some b
  | .absent, _ => rfl
  | .raw vs, h => by
      have values : (Value.toJsonAll vs).mapM Value.ofJson? = some vs := Value.list?_toJsonAll h
      simp [AtBlock.toJson, Json.tag, AtBlock.ofJson?, values]
  | .declarations ds, h => by
      have declarations : (ds.map Declaration.toJson).mapM Declaration.ofJson? = some ds :=
        mapM_map_eq_some fun d hd => Declaration.ofJson?_toJson (h d hd)
      simp [AtBlock.toJson, Json.tag, AtBlock.ofJson?, declarations]
  | .rules rs, h => by
      have rules := Rule.ofJsonAll?_toJsonAll rs h
      simp [AtBlock.toJson, Json.tag, AtBlock.ofJson?, rules]

theorem Rule.ofJson?_toJson : (r : Rule) → r.IsEncodable → Rule.ofJson? r.toJson = some r
  | .style r, h => by
      have read := StyleRule.ofJson?_toJson h
      rw [StyleRule.toJson] at read
      simp [Rule.toJson, Json.tag, StyleRule.toJson, Rule.ofJson?, read]
  | .at ⟨name, prelude, block⟩, h => by
      have read := AtRule.ofJson?_toJson ⟨name, prelude, block⟩ h
      rw [AtRule.toJson, AtRule.ofJson?] at read
      simp [Rule.toJson, Json.tag, AtRule.toJson, Rule.ofJson?, read]

theorem Rule.ofJsonAll?_toJsonAll : (rs : List Rule) → Rule.AreEncodable rs →
    Rule.ofJsonAll? (Rule.toJsonAll rs) = some rs
  | [], _ => rfl
  | r :: rs, h => by
      rw [Rule.toJsonAll, Rule.ofJsonAll?, Rule.ofJson?_toJson r h.1,
        Rule.ofJsonAll?_toJsonAll rs h.2]
      rfl

end

theorem Rule.toJsonAll_eq_map (rs : List Rule) : Rule.toJsonAll rs = rs.map Rule.toJson := by
  induction rs with
  | nil => rfl
  | cons r rs ih => rw [Rule.toJsonAll, ih, List.map_cons]

theorem Rule.isEncodable_of_mem {rs : List Rule} (h : Rule.AreEncodable rs) :
    ∀ r ∈ rs, r.IsEncodable := by
  induction rs with
  | nil => simp
  | cons r rs ih =>
      intro s hs
      rcases List.mem_cons.mp hs with rfl | hs
      · exact h.1
      · exact ih h.2 s hs

theorem Sheet.ofJson?_toJson {s : Sheet} (h : s.IsEncodable) : Sheet.ofJson? s.toJson = some s := by
  have rules : (Json.array (Rule.toJsonAll s.rules)).list? Rule.ofJson? = some s.rules := by
    rw [Rule.toJsonAll_eq_map]
    exact mapM_map_eq_some fun r hr => Rule.ofJson?_toJson r (Rule.isEncodable_of_mem h r hr)
  simp [Sheet.toJson, Sheet.ofJson?, Json.member?_cons, rules]

end CssSieve
