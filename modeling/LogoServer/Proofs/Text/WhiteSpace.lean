import LogoServer.Token.Segment
import Mathlib.Tactic

/-! White space belongs to no lexeme: it is no letter, digit or numeral, and neither a name nor a
quoted word goes on over it. -/
namespace LogoServer

namespace Text

/-- Tables whose ranges lie apart have no code point in common. -/
theorem RangeTable.contains_eq_false_of_apart {a b : RangeTable} (ha : a.Ascending)
    (hb : b.Ascending) (h : ∀ r ∈ a, ∀ s ∈ b, r.2 < s.1 ∨ s.2 < r.1) {n : Nat}
    (hn : a.contains n = true) : b.contains n = false := by
  rw [← Bool.not_eq_true, contains_iff hb]
  rintro ⟨s, hs, hsn⟩
  obtain ⟨r, hr, hrn⟩ := (contains_iff ha n).mp hn
  have := h r hr s hs
  omega

variable {c : Char}

theorem isAlphabetic_of_isWhiteSpace (h : isWhiteSpace c = true) : isAlphabetic c = false :=
  RangeTable.contains_eq_false_of_apart whiteSpaceRanges_ascending alphabeticRanges_ascending
    (by decide +kernel) h

theorem isNumeric_of_isWhiteSpace (h : isWhiteSpace c = true) : isNumeric c = false :=
  RangeTable.contains_eq_false_of_apart whiteSpaceRanges_ascending numericRanges_ascending
    (by decide +kernel) h

theorem isDigit_of_isWhiteSpace (h : isWhiteSpace c = true) : c.isDigit = false := by
  have hapart : ∀ r ∈ whiteSpaceRanges, r.2 < 48 ∨ 57 < r.1 := by decide
  obtain ⟨r, hr, hrn⟩ := isWhiteSpace_iff.mp h
  rw [← Bool.not_eq_true]
  intro hdigit
  have hrange : 48 ≤ c.toNat ∧ c.toNat ≤ 57 := by
    simpa [Char.isDigit, UInt32.le_iff_toNat_le] using hdigit
  have := hapart r hr
  omega

theorem isWhiteSpace_of_isDigit (h : c.isDigit = true) : isWhiteSpace c = false := by
  rw [← Bool.not_eq_true]
  intro hblank
  rw [isDigit_of_isWhiteSpace hblank] at h
  cases h

end Text

namespace Segment

variable {c : Char}

/-- No character both separates lexemes and belongs to a name. -/
theorem continuesName_of_isWhiteSpace (h : Text.isWhiteSpace c = true) :
    continuesName c = false := by
  have hmarks : c ≠ '_' ∧ c ≠ '.' ∧ c ≠ '?' := by
    refine ⟨?_, ?_, ?_⟩ <;> rintro rfl <;> exact absurd h (by decide)
  simp only [continuesName, Text.isAlphanumeric, Text.isAlphabetic_of_isWhiteSpace h,
    Text.isNumeric_of_isWhiteSpace h]
  simp [hmarks]

theorem isWhiteSpace_of_continuesName (h : continuesName c = true) :
    Text.isWhiteSpace c = false := by
  rw [← Bool.not_eq_true]
  intro hblank
  rw [continuesName_of_isWhiteSpace hblank] at h
  cases h

theorem continuesName_of_startsName (h : startsName c = true) : continuesName c = true := by
  simp only [startsName, Bool.or_eq_true, beq_iff_eq] at h
  rcases h with h | h <;> simp [continuesName, Text.isAlphanumeric, h]

theorem continuesWord_of_isWhiteSpace (h : Text.isWhiteSpace c = true) :
    continuesWord c = false := by
  simp [continuesWord, h]

theorem isWhiteSpace_of_continuesWord (h : continuesWord c = true) :
    Text.isWhiteSpace c = false := by
  rw [← Bool.not_eq_true]
  intro hblank
  rw [continuesWord_of_isWhiteSpace hblank] at h
  cases h

end Segment

end LogoServer
