import LogoServer.Proofs.Token.Spelling
import LogoServer.Text.LowerCase
import Mathlib.Tactic

/-! Lines of a text, and what folding of letter case leaves of them: it keeps the number of
characters and every line feed, so that places in the folded text are places in the text itself. -/
namespace LogoServer

namespace Text

/-- The lines of a text; a line feed at its end is followed by an empty line. -/
def lines (text : List Char) : List (List Char) :=
  text.splitOn '\n'

theorem length_lines (text : List Char) : (lines text).length = text.count '\n' + 1 := by
  induction text with
  | nil => rfl
  | cons c text ih =>
    unfold lines at ih ⊢
    rw [List.splitOn_cons_eq_if_modifyHead, List.count_cons]
    split_ifs with hc
    · rw [List.length_cons, ih]
    · rw [List.length_modifyHead, ih]

theorem lines_append (before behind : List Char) :
    lines (before ++ '\n' :: behind) = lines before ++ lines behind :=
  List.splitOn_append_cons_self ..

/-- What stands before the first line feed is the first line. -/
theorem lines_getElem?_zero {start : List Char} (h : '\n' ∉ start) (rest : List Char) :
    (lines (start ++ rest))[0]? = some (start ++ rest.takeWhile (· != '\n')) := by
  have hsplit := @List.takeWhile_append_dropWhile _ (· != '\n') rest
  have hline : '\n' ∉ start ++ rest.takeWhile (· != '\n') := by
    intro hmem
    rcases List.mem_append.mp hmem with hmem | hmem
    · exact h hmem
    · exact absurd (List.mem_takeWhile_imp hmem) (by decide)
  cases hrest : rest.dropWhile (· != '\n') with
  | nil =>
    rw [hrest, List.append_nil] at hsplit
    rw [hsplit] at hline ⊢
    rw [lines, List.splitOn_eq_singleton hline]
    rfl
  | cons c behind =>
    have hc := Segment.of_mem_head?_dropWhile (c := c) (by rw [hrest]; rfl)
    obtain rfl : c = '\n' := by simpa using hc
    conv => lhs; rw [← hsplit, hrest, ← List.append_assoc]
    rw [lines, List.splitOn_append_cons_self_of_not_mem hline]
    rfl

/-- A stretch of one line is found on the line that the place before it tells. -/
theorem exists_line {before part : List Char} (h : '\n' ∉ part) (behind : List Char) :
    ∃ left right, (lines (before ++ part ++ behind))[before.count '\n']? =
      some (left ++ part ++ right) ∧ left.length = (Position.behind before).column := by
  let left := (before.reverse.takeWhile (· != '\n')).reverse
  have hleft : '\n' ∉ left ++ part := by
    intro hmem
    rcases List.mem_append.mp hmem with hmem | hmem
    · exact absurd (List.mem_takeWhile_imp (List.mem_reverse.mp hmem)) (by decide)
    · exact h hmem
  have hzero := lines_getElem?_zero hleft behind
  have hsplit : (before.reverse.dropWhile (· != '\n')).reverse ++ left = before := by
    rw [← List.reverse_append, List.takeWhile_append_dropWhile, List.reverse_reverse]
  refine ⟨left, behind.takeWhile (· != '\n'), ?_, List.length_reverse⟩
  cases hrest : before.reverse.dropWhile (· != '\n') with
  | nil =>
    rw [hrest] at hsplit
    change left = before at hsplit
    have hcount : before.count '\n' = 0 := by
      rw [List.count_eq_zero, ← hsplit]
      exact fun hmem => hleft (List.mem_append_left _ hmem)
    rw [hcount, ← hsplit]
    exact hzero
  | cons c earlier =>
    have hc := Segment.of_mem_head?_dropWhile (c := c) (by rw [hrest]; rfl)
    obtain rfl : c = '\n' := by simpa using hc
    rw [hrest, List.reverse_cons, List.append_assoc, List.singleton_append] at hsplit
    have hcount : before.count '\n' = (lines earlier.reverse).length := by
      have hnone : left.count '\n' = 0 :=
        List.count_eq_zero.mpr fun hmem => hleft (List.mem_append_left _ hmem)
      rw [length_lines, ← hsplit, List.count_append, List.count_cons_self, hnone]
    have htext : before ++ part ++ behind =
        earlier.reverse ++ '\n' :: (left ++ part ++ behind) := by
      rw [← hsplit]
      simp
    rw [hcount, htext, lines_append, List.getElem?_append_right le_rfl, Nat.sub_self]
    exact hzero

/-! ### Folding of letter case -/

/-- A code point is lowered by a run that covers it, or stays. -/
theorem lowerBy_cases (runs : List CaseRun) (n : Nat) :
    lowerBy runs n = n ∨ ∃ run ∈ runs, run.covers n = true ∧ lowerBy runs n = run.lower n := by
  induction runs with
  | nil => exact .inl rfl
  | cons run runs ih =>
    rw [lowerBy]
    split_ifs with hbefore hcovers
    · exact .inl rfl
    · exact .inr ⟨run, List.mem_cons_self, hcovers, rfl⟩
    · rcases ih with hsame | ⟨other, hother, hlower⟩
      · exact .inl hsame
      · exact .inr ⟨other, List.mem_cons_of_mem _ hother, hlower⟩

/-- Only a line feed is folded to a line feed. -/
theorem foldCase_eq_newline_iff {c : Char} : foldCase c = '\n' ↔ c = '\n' := by
  constructor
  · intro h
    have hten : lowerBy caseRuns c.toNat = 10 := by
      by_cases hvalid : (lowerBy caseRuns c.toNat).isValidChar
      · rw [foldCase, Char.ofNat, dif_pos hvalid] at h
        exact congrArg Char.toNat h
      · rw [foldCase, Char.ofNat, dif_neg hvalid] at h
        exact absurd h (by decide)
    have himages : ∀ run ∈ caseRuns, 10 < run.image := by decide +kernel
    rcases lowerBy_cases caseRuns c.toNat with hsame | ⟨run, hrun, _, hlower⟩
    · rw [hsame] at hten
      exact Char.toNat_inj.mp hten
    · have himage := himages run hrun
      rw [hlower, CaseRun.lower] at hten
      omega
  · rintro rfl
    decide

/-- White space has no other letter case. -/
theorem foldCase_of_isWhiteSpace {c : Char} (h : isWhiteSpace c = true) :
    foldCase c = c := by
  have hapart : ∀ range ∈ whiteSpaceRanges, ∀ run ∈ caseRuns,
      range.2 < run.first ∨ run.last < range.1 := by decide +kernel
  obtain ⟨range, hrange, hlow, hhigh⟩ := isWhiteSpace_iff.mp h
  rcases lowerBy_cases caseRuns c.toNat with hsame | ⟨run, hrun, hcovers, _⟩
  · rw [foldCase, hsame, Char.ofNat_toNat]
  · have := hapart range hrange run hrun
    simp only [CaseRun.covers, Bool.and_eq_true, decide_eq_true_eq] at hcovers
    omega

theorem count_newline_map_foldCase (text : List Char) :
    (text.map foldCase).count '\n' = text.count '\n' := by
  rw [List.count_eq_countP, List.count_eq_countP, List.countP_map]
  refine List.countP_congr fun c _ => ?_
  simp [foldCase_eq_newline_iff]

/-- Places in the folded text are places in the text. -/
theorem behind_map_foldCase (text : List Char) :
    Position.behind (text.map foldCase) = Position.behind text := by
  have htest : (fun c => c != '\n') ∘ foldCase = fun c => c != '\n' := by
    funext c
    rw [Bool.eq_iff_iff]
    simp [foldCase_eq_newline_iff]
  rw [Position.behind, Position.behind, count_newline_map_foldCase, ← List.map_reverse,
    List.takeWhile_map, List.length_map, htest]

end Text

end LogoServer
