import LogoServer.Text.RangeTable

/-! White space: what separates lexemes and means nothing else. -/
namespace LogoServer.Text

/-- Code points with the property White_Space. -/
def whiteSpaceRanges : RangeTable := [
    (0x9, 0xd), (0x20, 0x20), (0x85, 0x85), (0xa0, 0xa0), (0x1680, 0x1680), (0x2000, 0x200a),
    (0x2028, 0x2029), (0x202f, 0x202f), (0x205f, 0x205f), (0x3000, 0x3000)]

theorem whiteSpaceRanges_ascending : whiteSpaceRanges.Ascending :=
  RangeTable.ascending_of_neighbours (by decide) (by decide)

/-- The character is white space; line feed and carriage return included. -/
def isWhiteSpace (c : Char) : Bool :=
  whiteSpaceRanges.contains c.toNat

theorem isWhiteSpace_iff {c : Char} :
    isWhiteSpace c = true ↔ ∃ range ∈ whiteSpaceRanges, range.1 ≤ c.toNat ∧ c.toNat ≤ range.2 :=
  RangeTable.contains_iff whiteSpaceRanges_ascending _

end LogoServer.Text
