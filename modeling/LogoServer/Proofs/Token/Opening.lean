import LogoServer.Proofs.Text.WhiteSpace
import Mathlib.Tactic

/-! What a text opens with. There are seven ways, and each of them tells what is cut off the text;
whatever holds of a cut is shown for these. -/
namespace LogoServer

namespace Kind

/-- The characters of a kind that is always written with the same marks. -/
def marks? : Kind → Option (List Char)
  | .leftBracket => some ['[']
  | .rightBracket => some [']']
  | .leftParen => some ['(']
  | .rightParen => some [')']
  | .plus => some ['+']
  | .minus => some ['-']
  | .star => some ['*']
  | .slash => some ['/']
  | .equal => some ['=']
  | .less => some ['<']
  | .greater => some ['>']
  | .lessEqual => some ['<', '=']
  | .greaterEqual => some ['>', '=']
  | .notEqual => some ['<', '>']
  | .keyword _ | .name | .colonName | .word | .number | .eof => none

/-- A lexeme of the kind would take the character in, if it stood right behind. -/
def goesOn : Kind → Char → Bool
  | .keyword _, c | .name, c | .colonName, c => Segment.continuesName c
  | .word, c => Segment.continuesWord c
  | .number, c => c.isDigit
  | .less, c => c == '=' || c == '>'
  | .greater, c => c == '='
  | _, _ => false

theorem isWhiteSpace_of_marks {kind : Kind} {text : List Char} (h : kind.marks? = some text) :
    ∀ c ∈ text, Text.isWhiteSpace c = false := by
  have hmarks : (kind.marks?.getD []).all (fun c => !Text.isWhiteSpace c) = true := by
    cases kind <;> rfl
  rw [h] at hmarks
  intro c hc
  simpa using List.all_eq_true.mp hmarks c hc

theorem plain_of_marks {kind : Kind} {text : List Char} (h : kind.marks? = some text) :
    kind ∉ [.eof, .colonName, .word, .name] := by
  cases kind <;> cases h <;> decide

/-- White space ends a lexeme of whatever kind. -/
theorem goesOn_of_isWhiteSpace (kind : Kind) {c : Char} (h : Text.isWhiteSpace c = true) :
    kind.goesOn c = false := by
  have hequal : c ≠ '=' := by
    rintro rfl
    exact absurd h (by decide)
  have hgreater : c ≠ '>' := by
    rintro rfl
    exact absurd h (by decide)
  cases kind with
  | keyword | name | colonName => exact Segment.continuesName_of_isWhiteSpace h
  | word => exact Segment.continuesWord_of_isWhiteSpace h
  | number => exact Text.isDigit_of_isWhiteSpace h
  | less => simp [goesOn, hequal, hgreater]
  | greater => simp [goesOn, hequal]
  | _ => rfl

end Kind

namespace Segment

/-- Neither white space nor one of the marks that tell what they start. -/
structure Unmarked (c : Char) : Prop where
  isWhiteSpace : Text.isWhiteSpace c = false
  notMem : c ∉ [';', '[', ']', '(', ')', '+', '-', '*', '/', '=', '<', '>', '"']
  ne_colon : c ≠ ':'

/-- What a text opens with. A minus is kept apart from the other marks, as it may be a sign. -/
inductive Opening : Char → List Char → Prop
  | blank {c : Char} {rest : List Char} (h : Text.isWhiteSpace c = true) : Opening c rest
  | comment {rest : List Char} : Opening ';' rest
  | marks {c : Char} {more rest : List Char} (kind : Kind) (h : kind.marks? = some (c :: more))
      (hminus : kind ≠ .minus) (hend : ∀ d ∈ rest.head?, kind.goesOn d = false) :
      Opening c (more ++ rest)
  | minus {rest : List Char} : Opening '-' rest
  | quote {rest : List Char} : Opening '"' rest
  | colon {rest : List Char} : Opening ':' rest
  | unmarked {c : Char} {rest : List Char} (h : Unmarked c) : Opening c rest

theorem Opening.less (rest : List Char) : Opening '<' rest := by
  rcases rest with _ | ⟨d, rest⟩
  · exact .marks .less rfl (by decide) (by simp)
  · by_cases hequal : d = '='
    · subst hequal
      exact .marks .lessEqual rfl (by decide) fun _ _ => rfl
    · by_cases hgreater : d = '>'
      · subst hgreater
        exact .marks .notEqual rfl (by decide) fun _ _ => rfl
      · exact @Opening.marks '<' [] (d :: rest) .less rfl (by decide)
          (by simp [Kind.goesOn, hequal, hgreater])

theorem Opening.greater (rest : List Char) : Opening '>' rest := by
  rcases rest with _ | ⟨d, rest⟩
  · exact .marks .greater rfl (by decide) (by simp)
  · by_cases hequal : d = '='
    · subst hequal
      exact .marks .greaterEqual rfl (by decide) fun _ _ => rfl
    · exact @Opening.marks '>' [] (d :: rest) .greater rfl (by decide)
        (by simp [Kind.goesOn, hequal])

/-- There is no other way for a text to open. -/
theorem opening (c : Char) (rest : List Char) : Opening c rest := by
  by_cases hblank : Text.isWhiteSpace c = true
  · exact .blank hblank
  by_cases hcolon : c = ':'
  · subst hcolon
    exact .colon
  by_cases hmark : c ∈ [';', '[', ']', '(', ')', '+', '-', '*', '/', '=', '<', '>', '"']
  · simp only [List.mem_cons, List.not_mem_nil, or_false] at hmark
    rcases hmark with rfl | rfl | rfl | rfl | rfl | rfl | rfl | rfl | rfl | rfl | rfl | rfl | rfl
    · exact .comment
    · exact .marks .leftBracket rfl (by decide) (fun _ _ => rfl)
    · exact .marks .rightBracket rfl (by decide) (fun _ _ => rfl)
    · exact .marks .leftParen rfl (by decide) (fun _ _ => rfl)
    · exact .marks .rightParen rfl (by decide) (fun _ _ => rfl)
    · exact .marks .plus rfl (by decide) (fun _ _ => rfl)
    · exact .minus
    · exact .marks .star rfl (by decide) (fun _ _ => rfl)
    · exact .marks .slash rfl (by decide) (fun _ _ => rfl)
    · exact .marks .equal rfl (by decide) (fun _ _ => rfl)
    · exact .less rest
    · exact .greater rest
    · exact .quote
  · exact .unmarked ⟨by simpa using hblank, hmark, hcolon⟩

section Cut

variable (previous : Option Kind)

theorem cut_of_isWhiteSpace {c : Char} (h : Text.isWhiteSpace c = true) (rest : List Char) :
    cut previous c rest = (.blank c, rest) :=
  if_pos h

theorem cut_semicolon (rest : List Char) :
    cut previous ';' rest =
      (.comment (';' :: rest.takeWhile (· != '\n')), rest.dropWhile (· != '\n')) :=
  rfl

theorem cut_marks {kind : Kind} {c : Char} {more rest : List Char}
    (h : kind.marks? = some (c :: more)) (hminus : kind ≠ .minus)
    (hend : ∀ d ∈ rest.head?, kind.goesOn d = false) :
    cut previous c (more ++ rest) = cutLexeme kind (c :: more) rest := by
  cases kind with
  -- A comparison would take in the mark behind it.
  | less =>
    cases h
    rcases rest with _ | ⟨d, rest⟩
    · rfl
    · have hne : d ≠ '=' ∧ d ≠ '>' := by simpa [Kind.goesOn] using hend
      unfold cut
      rw [if_neg (by decide), List.nil_append]
      simp [hne, cutLexeme]
  | greater =>
    cases h
    rcases rest with _ | ⟨d, rest⟩
    · rfl
    · have hne : d ≠ '=' := by simpa [Kind.goesOn] using hend
      unfold cut
      rw [if_neg (by decide), List.nil_append]
      simp [hne, cutLexeme]
  | minus => exact absurd rfl hminus
  | _ => cases h <;> rfl

theorem cut_minus (rest : List Char) :
    cut previous '-' rest =
      if !previous.any Kind.endsValue && firstIs Char.isDigit rest then cutNumber ['-'] rest
      else cutLexeme .minus ['-'] rest :=
  rfl

theorem cut_quote (rest : List Char) :
    cut previous '"' rest = cutWhile .word ['"'] continuesWord rest :=
  rfl

theorem cut_colon (rest : List Char) :
    cut previous ':' rest =
      if firstIs startsName rest then cutWhile .colonName [':'] continuesName rest
      else (.stray ':', rest) :=
  rfl

theorem cut_unmarked {c : Char} (h : Unmarked c) (rest : List Char) :
    cut previous c rest =
      if c.isDigit then cutNumber [] (c :: rest)
      else if startsName c then cutName (c :: rest)
      else (.stray c, rest) := by
  obtain ⟨hblank, hmarks, hcolon⟩ := h
  simp only [List.mem_cons, List.not_mem_nil, or_false, not_or] at hmarks
  unfold cut
  rw [hblank, if_neg Bool.false_ne_true]
  split
  case h_18 => rfl
  all_goals simp_all

end Cut

end Segment

end LogoServer
