import LogoServer.Proofs.Token.Spelling
import LogoServer.Proofs.Tree.Relocated
import Mathlib.Tactic

/-! Texts joined by line feeds. No part of a text goes over the end of its line into the next one,
so each text is cut as it stands alone; only a minus at the start of the second one would look back
at the first. -/
namespace LogoServer

namespace Segment

/-! ### Before a line feed -/

section Line

variable {test : Char → Bool} (h : test '\n' = false)
include h

theorem takeWhile_line (text behind : List Char) :
    (text ++ '\n' :: behind).takeWhile test = text.takeWhile test := by
  induction text with
  | nil => exact List.takeWhile_cons_of_neg (by simp [h])
  | cons c text ih => rw [List.cons_append, List.takeWhile_cons, List.takeWhile_cons, ih]

theorem dropWhile_line (text behind : List Char) :
    (text ++ '\n' :: behind).dropWhile test = text.dropWhile test ++ '\n' :: behind := by
  induction text with
  | nil => exact List.dropWhile_cons_of_neg (by simp [h])
  | cons c text ih =>
    rw [List.cons_append, List.dropWhile_cons, List.dropWhile_cons, ih]
    split_ifs <;> rfl

theorem firstIs_line (text behind : List Char) :
    firstIs test (text ++ '\n' :: behind) = firstIs test text := by
  cases text with
  | nil => exact h
  | cons c text => rfl

theorem cutWhile_line (kind : Kind) (start text behind : List Char) :
    cutWhile kind start test (text ++ '\n' :: behind) =
      (cutWhile kind start test text).map id (· ++ '\n' :: behind) := by
  rw [cutWhile, takeWhile_line h, dropWhile_line h]
  rfl

end Line

theorem continuesName_newline : continuesName '\n' = false :=
  continuesName_of_isWhiteSpace (by decide)

theorem startsName_newline : startsName '\n' = false := by
  rw [← Bool.not_eq_true]
  intro h
  have hcontinues := continuesName_of_startsName h
  rw [continuesName_newline] at hcontinues
  cases hcontinues

theorem cutNumber_line (sign text behind : List Char) :
    cutNumber sign (text ++ '\n' :: behind) =
      (cutNumber sign text).map id (· ++ '\n' :: behind) := by
  have hdigit : Char.isDigit '\n' = false := by decide
  unfold cutNumber
  rw [takeWhile_line hdigit, dropWhile_line hdigit]
  rcases text.dropWhile Char.isDigit with _ | ⟨c, _ | ⟨d, rest⟩⟩
  · rfl
  · by_cases hc : c = '.'
    · subst hc
      rfl
    · simp [hc, cutLexeme]
  · by_cases hc : c = '.'
    · subst hc
      by_cases hd : d.isDigit = true
      · simp only [List.cons_append, hd, if_true]
        exact cutWhile_line hdigit _ _ (d :: rest) behind
      · simp [hd, cutLexeme]
    · simp [hc, cutLexeme]

theorem cutName_line (text behind : List Char) :
    cutName (text ++ '\n' :: behind) = (cutName text).map id (· ++ '\n' :: behind) := by
  rw [cutName, takeWhile_line continuesName_newline, dropWhile_line continuesName_newline]
  rfl

theorem cutComment_line (text behind : List Char) :
    (comment (';' :: (text ++ '\n' :: behind).takeWhile (· != '\n')),
        (text ++ '\n' :: behind).dropWhile (· != '\n')) =
      (comment (';' :: text.takeWhile (· != '\n')), text.dropWhile (· != '\n')).map id
        (· ++ '\n' :: behind) := by
  have htake : (text ++ '\n' :: behind).takeWhile (· != '\n') = text.takeWhile (· != '\n') :=
    takeWhile_line (by decide) text behind
  have hdrop : (text ++ '\n' :: behind).dropWhile (· != '\n') =
      text.dropWhile (· != '\n') ++ '\n' :: behind := dropWhile_line (by decide) text behind
  rw [htake, hdrop]
  rfl

theorem cutMarks_line (previous : Option Kind) {kind : Kind} {c : Char} {more rest : List Char}
    (hmarks : kind.marks? = some (c :: more)) (hminus : kind ≠ .minus)
    (hend : ∀ d ∈ rest.head?, kind.goesOn d = false) (behind : List Char) :
    cut previous c (more ++ (rest ++ '\n' :: behind)) =
      (cut previous c (more ++ rest)).map id (· ++ '\n' :: behind) := by
  have hend' : ∀ d ∈ (rest ++ '\n' :: behind).head?, kind.goesOn d = false := by
    cases rest with
    | nil =>
      rintro _ ⟨⟩
      exact kind.goesOn_of_isWhiteSpace (by decide)
    | cons d rest => exact hend
  rw [cut_marks previous hmarks hminus hend', cut_marks previous hmarks hminus hend]
  rfl

/-- What is cut off a text is cut off it before a line feed as well. -/
theorem cut_line (previous : Option Kind) (c : Char) (rest behind : List Char) :
    cut previous c (rest ++ '\n' :: behind) =
      (cut previous c rest).map id (· ++ '\n' :: behind) := by
  cases opening c rest with
  | blank hblank =>
    rw [cut_of_isWhiteSpace previous hblank, cut_of_isWhiteSpace previous hblank]
    rfl
  | comment =>
    rw [cut_semicolon, cut_semicolon]
    exact cutComment_line rest behind
  | marks kind hmarks hminus hend =>
    rw [List.append_assoc]
    exact cutMarks_line previous hmarks hminus hend behind
  | minus =>
    rw [cut_minus, cut_minus, firstIs_line (by decide), cutNumber_line]
    split_ifs <;> rfl
  | quote =>
    rw [cut_quote, cut_quote]
    exact cutWhile_line (by decide) .word ['"'] rest behind
  | colon =>
    rw [cut_colon, cut_colon, firstIs_line startsName_newline, cutWhile_line continuesName_newline]
    split_ifs <;> rfl
  | unmarked hc =>
    rw [cut_unmarked previous hc, cut_unmarked previous hc, ← List.cons_append, cutNumber_line,
      cutName_line]
    split_ifs <;> rfl

/-! ### What stands before -/

theorem cutNumber_kind {sign text : List Char} {l : Lexeme}
    (h : (cutNumber sign text).1 = .lexeme l) : l.kind = .number := by
  unfold cutNumber at h
  split at h
  · split_ifs at h
    all_goals
      cases h
      rfl
  · cases h
    rfl

/-- Only a minus looks back at the lexeme before it. -/
theorem cut_previous {previous : Option Kind} {c : Char} {rest : List Char}
    (h : ∀ l, (cut previous c rest).1 = .lexeme l → l.kind ≠ .number ∧ l.kind ≠ .minus)
    (previous' : Option Kind) : cut previous' c rest = cut previous c rest := by
  cases opening c rest with
  | blank hblank => rw [cut_of_isWhiteSpace _ hblank, cut_of_isWhiteSpace _ hblank]
  | marks kind hmarks hminus hend =>
    rw [cut_marks _ hmarks hminus hend, cut_marks _ hmarks hminus hend]
  | minus =>
    rw [cut_minus] at h
    split_ifs at h
    · obtain ⟨l, hl⟩ := cutNumber_eq_lexeme ['-'] rest
      exact absurd (cutNumber_kind hl) (h l hl).1
    · exact absurd rfl (h _ rfl).2
  | comment => rw [cut_semicolon, cut_semicolon]
  | quote => rw [cut_quote, cut_quote]
  | colon => rw [cut_colon, cut_colon]
  | unmarked hc => rw [cut_unmarked _ hc, cut_unmarked _ hc]

end Segment

/-! ### Lines further down -/

theorem Position.down_advanceOver (lines : Nat) (p : Position) (text : List Char) :
    (p.down lines).advanceOver text = (p.advanceOver text).down lines := by
  induction text generalizing p with
  | nil => rfl
  | cons c text ih =>
    have hadvance : (p.down lines).advance c = (p.advance c).down lines := by
      unfold Position.advance Position.down
      split_ifs
      · simp only [Position.mk.injEq, and_true]
        omega
      · rfl
    rw [advanceOver_cons, advanceOver_cons, hadvance, ih]

namespace Placed

def down (lines : Nat) (x : Placed) : Placed :=
  ⟨x.position.down lines, x.segment⟩

theorem tokens_down (lines : Nat) (placed : List Placed) :
    (placed.map (down lines)).filterMap token? =
      (placed.filterMap token?).map (Token.relocate (.down lines)) := by
  have htoken (x : Placed) :
      (x.down lines).token? = x.token?.map (Token.relocate (.down lines)) := by
    obtain ⟨p, segment⟩ := x
    cases segment <;> rfl
  rw [List.filterMap_map, List.map_filterMap]
  exact List.filterMap_congr fun x _ => htoken x

theorem errors_down (lines : Nat) (placed : List Placed) :
    (placed.map (down lines)).filterMap error? =
      (placed.filterMap error?).map (SyntaxError.relocate (.down lines)) := by
  have herror (x : Placed) :
      (x.down lines).error? = x.error?.map (SyntaxError.relocate (.down lines)) := by
    obtain ⟨p, segment⟩ := x
    cases segment <;> rfl
  rw [List.filterMap_map, List.map_filterMap]
  exact List.filterMap_congr fun x _ => herror x

end Placed

/-! ### Partitions of joined texts -/

namespace Partition

variable {p : Position} {previous : Option Kind} {text : List Char} {placed : List Placed}

theorem unique {placed' : List Placed} (h : Partition p previous text placed)
    (h' : Partition p previous text placed') : placed' = placed := by
  induction h generalizing placed' with
  | nil =>
    cases h'
    rfl
  | cons hcut _ ih =>
    cases h' with
    | cons hcut' h' =>
      rw [hcut] at hcut'
      obtain ⟨rfl, rfl⟩ := Prod.mk.inj hcut'
      rw [ih h']

/-- Behind the end of a line a text is cut on as the line before it was left. -/
theorem exists_line (h : Partition p previous text placed) :
    ∃ previous', ∀ behind placed',
      Partition (p.advanceOver (text ++ ['\n'])) previous' behind placed' →
        Partition p previous (text ++ '\n' :: behind)
          (placed ++ ⟨p.advanceOver text, .blank '\n'⟩ :: placed') := by
  induction h with
  | @nil p previous =>
    refine ⟨previous, fun behind placed' h' => ?_⟩
    have hcut : Segment.cut previous '\n' behind = (.blank '\n', behind) := rfl
    exact .cons hcut h'
  | @cons p previous c rest rest' segment placed hcut _ ih =>
    obtain ⟨previous', hline⟩ := ih
    have happend := Segment.cut_append previous c rest
    rw [hcut] at happend
    have hline' : p.advanceOver (c :: rest ++ ['\n']) =
        (p.advanceOver segment.chars).advanceOver (rest' ++ ['\n']) := by
      rw [← happend, List.append_assoc, Position.advanceOver_append]
    have hend : p.advanceOver (c :: rest) = (p.advanceOver segment.chars).advanceOver rest' := by
      rw [← happend, Position.advanceOver_append]
    refine ⟨previous', fun behind placed' h' => ?_⟩
    rw [hline'] at h'
    have hcut' := Segment.cut_line previous c rest behind
    rw [hcut] at hcut'
    rw [hend]
    exact .cons hcut' (hline behind placed' h')

/-- Moving a text by whole lines moves its parts. -/
theorem down (h : Partition p previous text placed) (lines : Nat) :
    Partition (p.down lines) previous text (placed.map (Placed.down lines)) := by
  induction h with
  | nil => exact .nil
  | cons hcut _ ih =>
    refine .cons hcut ?_
    rw [Position.down_advanceOver]
    exact ih

/-- What a text starts with does not look back, so it may stand behind anything. -/
theorem behind (h : Partition p previous text placed) {first : Token} {rest : List Token}
    (hplaced : placed.filterMap Placed.token? = first :: rest)
    (hfirst : first.kind ≠ .number ∧ first.kind ≠ .minus) (previous' : Option Kind) :
    Partition p previous' text placed := by
  induction h with
  | nil => cases hplaced
  | @cons p previous c rest' rest'' segment placed hcut htail ih =>
    have hcut' : Segment.cut previous' c rest' = (segment, rest'') := by
      rw [← hcut]
      refine Segment.cut_previous (fun l hl => ?_) previous'
      rw [hcut] at hl
      obtain rfl : segment = .lexeme l := hl
      obtain ⟨rfl, _⟩ := List.cons.inj hplaced
      exact hfirst
    refine .cons hcut' ?_
    cases segment with
    -- Behind the first lexeme it is that lexeme which is looked back at.
    | lexeme l => exact htail
    | blank c | comment text | stray c => exact ih hplaced

theorem exists_placed (p : Position) (previous : Option Kind) (text : List Char) :
    ∃ placed, Partition p previous text placed := by
  obtain ⟨placed, hplaced, _⟩ := placeSegments_partition p previous text [] le_rfl
  exact ⟨placed, hplaced⟩

end Partition

/-! ### Closers between texts -/

/-- The kind of a character that closes something. -/
def Kind.ofCloser? : Char → Option Kind
  | ']' => some .rightBracket
  | ')' => some .rightParen
  | _ => none

/-- The first closer of a text that starts at the place. -/
def firstCloser? (p : Position) : List Char → Option Token
  | [] => none
  | c :: text =>
    match Kind.ofCloser? c with
    | some kind => some { kind, text := c.toString, position := p }
    | none => firstCloser? (p.advance c) text

/-- The text has nothing in it but closers and white space. -/
def Text.OnlyCloses (text : List Char) : Prop :=
  ∀ c ∈ text, c = ']' ∨ c = ')' ∨ isWhiteSpace c = true

/-- Closers are the tokens of such a text, and it has no stray characters. -/
theorem Partition.onlyCloses {p : Position} {previous : Option Kind} {text : List Char}
    {placed : List Placed} (h : Partition p previous text placed) (htext : Text.OnlyCloses text) :
    (placed.filterMap Placed.token?).head? = firstCloser? p text ∧
      (∀ t ∈ placed.filterMap Placed.token?, t.kind = .rightBracket ∨ t.kind = .rightParen) ∧
      placed.filterMap Placed.error? = [] := by
  induction h with
  | nil => exact ⟨rfl, by simp, rfl⟩
  | @cons p previous c rest rest' segment placed hcut _ ih =>
    have hrest : Text.OnlyCloses rest := fun d hd => htext d (List.mem_cons_of_mem _ hd)
    rcases htext c List.mem_cons_self with rfl | rfl | hblank
    · obtain ⟨rfl, rfl⟩ := Prod.mk.inj hcut
      obtain ⟨_, hclosers, herrors⟩ := ih hrest
      exact ⟨rfl, List.forall_mem_cons.mpr ⟨.inl rfl, hclosers⟩, herrors⟩
    · obtain ⟨rfl, rfl⟩ := Prod.mk.inj hcut
      obtain ⟨_, hclosers, herrors⟩ := ih hrest
      exact ⟨rfl, List.forall_mem_cons.mpr ⟨.inr rfl, hclosers⟩, herrors⟩
    · rw [Segment.cut_of_isWhiteSpace _ hblank] at hcut
      obtain ⟨rfl, rfl⟩ := Prod.mk.inj hcut
      obtain ⟨hfirst, hclosers, herrors⟩ := ih hrest
      refine ⟨?_, hclosers, herrors⟩
      have hnone : Kind.ofCloser? c = none := by
        unfold Kind.ofCloser?
        split
        · exact absurd hblank (by decide)
        · exact absurd hblank (by decide)
        · rfl
      rw [firstCloser?, hnone]
      exact hfirst

theorem Position.advanceOver_line (text : List Char) :
    first.advanceOver (text ++ ['\n']) = first.down ((text ++ ['\n']).count '\n') := by
  rw [advanceOver_first, behind, List.reverse_append]
  rfl

/-- Texts joined by line feeds, with nothing but closers between them: the tokens and the stray
characters of each text, those of the second one so many lines further down. -/
theorem Scan.ofText_append_lines {a j b : List Char} (hj : Text.OnlyCloses j) {first : Token}
    {rest : List Token} (hb : (ofText b).tokens = first :: rest)
    (hfirst : first.kind ≠ .number ∧ first.kind ≠ .minus) {lines : Nat}
    (hlines : (a ++ '\n' :: (j ++ ['\n'])).count '\n' = lines) :
    let joined := ofText (a ++ '\n' :: (j ++ '\n' :: b))
    ∃ strays : List Token,
      strays.head? = firstCloser? (Position.first.advanceOver (a ++ ['\n'])) j ∧
      (∀ t ∈ strays, t.kind = .rightBracket ∨ t.kind = .rightParen) ∧
      joined.tokens = (ofText a).tokens ++
        (strays ++ (ofText b).tokens.map (Token.relocate (.down lines))) ∧
      joined.errors = (ofText a).errors ++
        (ofText b).errors.map (SyntaxError.relocate (.down lines)) ∧
      joined.eof = (ofText b).eof.relocate (.down lines) := by
  intro joined
  have htext : a ++ '\n' :: (j ++ ['\n']) = (a ++ '\n' :: j) ++ ['\n'] := by simp
  obtain ⟨previous, hline⟩ := (segments_partition a).exists_line
  obtain ⟨closers, hclosers⟩ :=
    Partition.exists_placed (Position.first.advanceOver (a ++ ['\n'])) previous j
  obtain ⟨previous', hline'⟩ := hclosers.exists_line
  have hstart : (Position.first.advanceOver (a ++ ['\n'])).advanceOver (j ++ ['\n']) =
      Position.first.down lines := by
    rw [← Position.advanceOver_append, ← hlines, htext, ← Position.advanceOver_line]
    simp
  have hsecond := ((segments_partition b).behind hb hfirst previous').down lines
  rw [← hstart] at hsecond
  have hsegments := (segments_partition _).unique (hline _ _ (hline' _ _ hsecond))
  obtain ⟨hhead, hkinds, herrors⟩ := hclosers.onlyCloses hj
  refine ⟨closers.filterMap Placed.token?, hhead, hkinds, ?_, ?_, ?_⟩
  · change (segments _).filterMap Placed.token? = _
    rw [← hsegments, List.filterMap_append, List.filterMap_cons, List.filterMap_append,
      List.filterMap_cons, Placed.tokens_down]
    rfl
  · change (segments _).filterMap Placed.error? = _
    rw [← hsegments, List.filterMap_append, List.filterMap_cons, List.filterMap_append,
      List.filterMap_cons, Placed.errors_down, herrors]
    rfl
  · change Token.endOfText (Position.first.advanceOver (a ++ '\n' :: (j ++ '\n' :: b))) =
      Token.endOfText ((Position.first.advanceOver b).down lines)
    rw [← Position.down_advanceOver, ← hstart, ← Position.advanceOver_append,
      ← Position.advanceOver_append]
    simp

end LogoServer
