/-!
# Text compared without ASCII case

CSS ignores the case of the letters `A`–`Z` in keywords, names and units, and of no other
character: `É` and `é` stay different. `lower` is the representative of a spelling, and two texts
are the same name when their representatives agree.
-/

namespace CssSieve.Text

/-- The text with the letters `A`–`Z` in lower case and every other character as it is. -/
def lower (s : String) : String := s.map Char.toLower

/-- Equality up to the case of ASCII letters. -/
def caseless (s t : String) : Bool := lower s == lower t

/-- Membership up to the case of ASCII letters. -/
def caselessMem (s : String) (words : List String) : Bool :=
  words.any (caseless · s)

theorem toLower_eq_self {c : Char} (h : ¬(c.val ≥ 'A'.val ∧ c.val ≤ 'Z'.val)) :
    c.toLower = c :=
  dif_neg h

theorem toLower_toLower (c : Char) : c.toLower.toLower = c.toLower := by
  by_cases h : c.val ≥ 'A'.val ∧ c.val ≤ 'Z'.val
  · refine toLower_eq_self ?_
    have lowered : c.toLower = ⟨c.val + 32, _⟩ := dif_pos h
    rw [lowered]
    have h1 : 65 ≤ c.val.toNat ∧ c.val.toNat ≤ 90 := by
      simpa [UInt32.le_iff_toNat_le] using h
    have : 'Z'.val.toNat = 90 := rfl
    have : (32 : UInt32).toNat = 32 := rfl
    simp only [UInt32.le_iff_toNat_le, ge_iff_le, UInt32.toNat_add]
    omega
  · rw [toLower_eq_self h, toLower_eq_self h]

theorem lower_lower (s : String) : lower (lower s) = lower s := by
  simp only [lower, String.map_map, Function.comp_def, toLower_toLower]

theorem caseless_refl (s : String) : caseless s s = true := by
  simp [caseless]

theorem caseless_comm (s t : String) : caseless s t = caseless t s := by
  simp only [caseless, Bool.beq_comm]

end CssSieve.Text
