import CssSieve.Policy.Json
import CssSieve.Proofs.Diagnostic.Encoding
import CssSieve.Proofs.Sheet.Encoding

/-!
# Results read from JSON

The JSON value that stands for a result, and those for all that it is made of, are read back as they
were, however deep they nest. The text of such a value is another matter: `Json.ofText?` refuses one
that nests deeper than `Json.maxDepth`.
-/

namespace CssSieve

/-- Every number in the result can be written: floats are finite, and integers and indices have
sixty-four bits. -/
def Sanitized.IsEncodable (s : Sanitized) : Prop :=
  s.sheet.IsEncodable ∧ ∀ d ∈ s.diagnostics, d.IsEncodable

theorem list?_diagnostics {ds : List Diagnostic} (h : ∀ d ∈ ds, d.IsEncodable) :
    (Json.array (ds.map Diagnostic.toJson)).list? Diagnostic.ofJson? = some ds :=
  mapM_map_eq_some fun d hd => Diagnostic.ofJson?_toJson (h d hd)

theorem Sanitized.ofJson?_toJson {s : Sanitized} (h : s.IsEncodable) :
    Sanitized.ofJson? s.toJson = some s := by
  have sheet := Sheet.ofJson?_toJson h.1
  have diagnostics := list?_diagnostics h.2
  simp [toJson, ofJson?, Json.member?_cons, sheet, diagnostics]

/-- **What is written as a JSON value is read back.** Results, sheets, declarations, component
values, tokens and lists of diagnostics are what is read from the JSON values that stand for them.
Nothing is said of text, of which `Json.ofText?` refuses what nests deeper than `Json.maxDepth`. -/
theorem read_written :
    (∀ s : Sanitized, s.IsEncodable → Sanitized.ofJson? s.toJson = some s) ∧
      (∀ s : Sheet, s.IsEncodable → Sheet.ofJson? s.toJson = some s) ∧
      (∀ d : Declaration, d.IsEncodable → Declaration.ofJson? d.toJson = some d) ∧
      (∀ v : Value, v.IsEncodable → Value.ofJson? v.toJson = some v) ∧
      (∀ t : Token, t.IsEncodable → Token.ofJson? t.toJson = some t) ∧
      ∀ ds : List Diagnostic, (∀ d ∈ ds, d.IsEncodable) →
        (Json.array (ds.map Diagnostic.toJson)).list? Diagnostic.ofJson? = some ds := by
  refine ⟨?_, ?_, ?_, ?_, ?_, ?_⟩
  · exact fun s => Sanitized.ofJson?_toJson
  · exact fun s => Sheet.ofJson?_toJson
  · exact fun d => Declaration.ofJson?_toJson
  · exact Value.ofJson?_toJson
  · exact fun t => Token.ofJson?_toJson
  · exact fun ds => list?_diagnostics

/-- A result with rules inside an at-rule, a number written as an integer, and a place in two
rules. -/
theorem read_written_nested :
    let t : Token := .dimension ⟨-1.5, some (-9223372036854775808), .integer⟩ "px"
    let v : Value := .function "calc" [.block '(' [.token t], .token (.delim '"')]
    let d : Declaration := ⟨"--x", [v], true⟩
    let p : Rule := .style ⟨[.token (.ident "p")], [d]⟩
    let s : Sheet := ⟨[.at ⟨"media", [v], .rules [p, .at ⟨"page", [], .absent⟩]⟩]⟩
    let ds : List Diagnostic :=
      [⟨.error, .unknownAtRule, .nested 0 (.nested 1 (.rule 18446744073709551615)), "@page"⟩]
    (Sanitized.IsEncodable ⟨s, ds⟩ ∧ Sanitized.ofJson? (Sanitized.toJson ⟨s, ds⟩) = some ⟨s, ds⟩) ∧
      (s.IsEncodable ∧ Sheet.ofJson? s.toJson = some s) ∧
      (d.IsEncodable ∧ Declaration.ofJson? d.toJson = some d) ∧
      (v.IsEncodable ∧ Value.ofJson? v.toJson = some v) ∧
      (t.IsEncodable ∧ Token.ofJson? t.toJson = some t) ∧
      (∀ d ∈ ds, d.IsEncodable) ∧
        (Json.array (ds.map Diagnostic.toJson)).list? Diagnostic.ofJson? = some ds := by
  intro t v d p s ds
  have token : t.IsEncodable := by
    simp only [Token.IsEncodable, Numeric.IsEncodable]
    decide +kernel
  have plain : ∀ u : Token, u.numeric? = none → u.IsEncodable := by
    intro u none n hn
    rw [none] at hn
    cases hn
  have value : v.IsEncodable := ⟨⟨token, trivial⟩, plain (.delim '"') rfl, trivial⟩
  have declaration : d.IsEncodable := ⟨value, trivial⟩
  have style : p.IsEncodable :=
    ⟨⟨plain (.ident "p") rfl, trivial⟩, List.forall_mem_singleton.mpr declaration⟩
  have sheet : s.IsEncodable := ⟨⟨⟨value, trivial⟩, style, ⟨trivial, trivial⟩, trivial⟩, trivial⟩
  have diagnostics : ∀ d ∈ ds, d.IsEncodable := by
    refine List.forall_mem_singleton.mpr ?_
    simp only [Diagnostic.IsEncodable, Location.IsEncodable]
    decide
  obtain ⟨results, sheets, declarations, values, tokens, lists⟩ := read_written
  exact ⟨⟨⟨sheet, diagnostics⟩, results _ ⟨sheet, diagnostics⟩⟩, ⟨sheet, sheets s sheet⟩,
    ⟨declaration, declarations d declaration⟩, ⟨value, values v value⟩, ⟨token, tokens t token⟩,
    diagnostics, lists ds diagnostics⟩

end CssSieve
