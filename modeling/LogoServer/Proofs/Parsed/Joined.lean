import LogoServer.Proofs.Parsed.Errors
import LogoServer.Proofs.Parser.Succession
import LogoServer.Proofs.Text.Lines
import LogoServer.Proofs.Token.Joined

/-! Documents joined by line feeds: a document without errors, closers that nothing opened, and any
other document that starts with a statement. Nothing of the first one reaches into the second. -/
namespace LogoServer

/-! ### Sorting -/

section Sorting

variable {α : Type} {le : α → α → Bool} (htrans : ∀ a b c : α, le a b → le b c → le a c)
  (htotal : ∀ a b : α, le a b || le b a)
include htrans htotal

/-- The first member of a list is sorted in before all that do not come before it. -/
theorem mergeSort_cons_eq (a : α) (as : List α) :
    (a :: as).mergeSort le =
      (as.mergeSort le).takeWhile (!le a ·) ++ a :: (as.mergeSort le).dropWhile (!le a ·) := by
  obtain ⟨before, behind, hsorted, hsorted', hbefore⟩ := List.mergeSort_cons htrans htotal a as
  have hpairwise := List.pairwise_mergeSort htrans htotal (a :: as)
  rw [hsorted] at hpairwise
  have hbehind : ∀ b ∈ behind, le a b = true := fun b hb =>
    List.rel_of_pairwise_cons (List.pairwise_append.mp hpairwise).2.1 hb
  have hstop : behind.takeWhile (!le a ·) = [] ∧ behind.dropWhile (!le a ·) = behind := by
    cases behind with
    | nil => exact ⟨rfl, rfl⟩
    | cons b behind => simp [hbehind b List.mem_cons_self]
  rw [hsorted, hsorted', List.takeWhile_append_of_pos hbefore, List.dropWhile_append_of_pos hbefore,
    hstop.1, hstop.2, List.append_nil]

/-- A member that comes before all others is sorted to the front, and the others are sorted as they
are without it. -/
theorem mergeSort_of_first {e : α} {as bs : List α} (h : ∀ a ∈ as ++ bs, le a e = false) :
    (as ++ e :: bs).mergeSort le = e :: (as ++ bs).mergeSort le := by
  induction as with
  | nil =>
    have hle : ∀ b ∈ bs.mergeSort le, le e b = true := by
      intro b hb
      have hor := htotal b e
      rwa [h b (List.mem_mergeSort.mp hb), Bool.false_or] at hor
    rw [List.nil_append, mergeSort_cons_eq htrans htotal]
    cases hsorted : bs.mergeSort le with
    | nil => simp [hsorted]
    | cons b bs' => simp [hsorted, hle b (by simp [hsorted])]
  | cons a as ih =>
    -- A further member is put in somewhere behind the first one.
    have hae : le a e = false := h a List.mem_cons_self
    rw [List.cons_append, mergeSort_cons_eq htrans htotal,
      ih fun b hb => h b (List.mem_cons_of_mem _ hb), List.cons_append,
      mergeSort_cons_eq htrans htotal a]
    simp [hae]

end Sorting

/-! ### Places -/

/-- Closers and white space have no other letter case. -/
theorem Text.OnlyCloses.map_foldCase {text : List Char} (h : OnlyCloses text) :
    text.map foldCase = text := by
  have hsame : ∀ c ∈ text, foldCase c = id c := by
    intro c hc
    rcases h c hc with rfl | rfl | hblank
    · decide
    · decide
    · exact foldCase_of_isWhiteSpace hblank
  rw [List.map_congr_left hsame, List.map_id]

theorem firstCloser?_line {p : Position} {text : List Char} {t : Token}
    (h : firstCloser? p text = some t) : t.position.line ≤ (p.advanceOver text).line := by
  induction text generalizing p with
  | nil => cases h
  | cons c text ih =>
    rw [firstCloser?] at h
    split at h
    · cases h
      have hle := Position.notAfter_advanceOver p (c :: text)
      rw [Position.notAfter_iff] at hle
      change p.line ≤ _
      omega
    · exact ih h

/-- A closer between two texts stands above the second one. -/
theorem firstCloser?_line_le {a j : List Char} {t : Token} {lines : Nat}
    (h : firstCloser? (.behind (a ++ ['\n'])) j = some t)
    (hlines : (a ++ '\n' :: (j ++ ['\n'])).count '\n' = lines) : t.position.line ≤ lines := by
  have hle := firstCloser?_line h
  rw [← Position.advanceOver_first, ← Position.advanceOver_append, Position.advanceOver_first,
    Position.behind] at hle
  simp only [List.count_append, List.count_cons_self, List.count_nil] at hle hlines
  omega

namespace Parsed

open LogoServer.Parser

theorem one_le_line {limit : Nat} {text : List Char} {e : SyntaxError}
    (he : e ∈ (ofTextWithin limit text).errors) : 1 ≤ e.position.line := by
  have hfirst (before : List Char) : 1 ≤ (Position.first.advanceOver before).line := by
    rw [Position.advanceOver_first]
    exact Nat.le_add_right 1 _
  rcases List.mem_append.mp ((errors_perm limit text).mem_iff.mp he) with he | he
  · obtain ⟨c, hmem, _⟩ := Scan.mem_errors_iff.mp he
    obtain ⟨before, _, _, hposition⟩ := (segments_partition _).exists_split hmem
    change e.position = _ at hposition
    rw [hposition]
    exact hfirst before
  · obtain ⟨notes, hpassage⟩ := exists_notes limit text
    rw [hpassage.errors_eq] at he
    obtain ⟨t, ht, _, rfl⟩ := hpassage.exists_of_mem_errors he
    rcases List.mem_append.mp ht with ht | ht
    · exact (Scan.tokens_within ht).1
    · rw [List.mem_singleton.mp ht]
      exact hfirst _

/-- An error on an earlier line is sorted to the front of errors that are moved behind it. -/
theorem mergeSort_down {stray : Option SyntaxError} (es fs : List SyntaxError) {lines : Nat}
    (hstray : ∀ e ∈ stray, e.position.line ≤ lines) (hlines : ∀ e ∈ es ++ fs, 1 ≤ e.position.line) :
    (es.map (SyntaxError.relocate (.down lines)) ++
        (stray.toList ++ fs.map (SyntaxError.relocate (.down lines)))).mergeSort
        (fun a b => a.position.notAfter b.position) =
      stray.toList ++ ((es ++ fs).mergeSort fun a b => a.position.notAfter b.position).map
        (SyntaxError.relocate (.down lines)) := by
  have hkeeps : ∀ a ∈ es ++ fs, ∀ b ∈ es ++ fs,
      a.position.notAfter b.position =
        (a.relocate (.down lines)).position.notAfter (b.relocate (.down lines)).position := by
    intro a _ b _
    rw [Bool.eq_iff_iff, Position.notAfter_iff, Position.notAfter_iff]
    simp only [SyntaxError.relocate, Position.down]
    omega
  have hmoved := List.map_mergeSort (s := fun a b : SyntaxError => a.position.notAfter b.position)
    hkeeps
  rw [hmoved, List.map_append]
  cases stray with
  | none => rfl
  | some e =>
    have htotal (a b : SyntaxError) :
        (a.position.notAfter b.position || b.position.notAfter a.position) = true :=
      Position.notAfter_total a.position b.position
    have htrans (a b c : SyntaxError) : a.position.notAfter b.position = true →
        b.position.notAfter c.position = true → a.position.notAfter c.position = true :=
      Position.notAfter_trans
    refine mergeSort_of_first htrans htotal fun x hx => ?_
    change x ∈ es.map _ ++ fs.map _ at hx
    rw [← List.map_append] at hx
    obtain ⟨y, hy, rfl⟩ := List.mem_map.mp hx
    have hline := hlines y hy
    have hbefore := hstray e rfl
    rw [Position.not_notAfter_iff]
    left
    change e.position.line < y.position.line + lines
    omega

section Joined

variable {limit : Nat} {a j b : List Char} (ha : (ofTextWithin limit a).errors = [])
  (hj : Text.OnlyCloses j) (hb : (foldedTokens b).head?.any (·.kind.startsStatement) = true)
  {lines : Nat} (hlines : (a ++ '\n' :: (j ++ ['\n'])).count '\n' = lines)
include hj hb hlines

/-- Letter case is folded in each text by itself. -/
theorem foldedScan_joined :
    ∃ first rest strays, (foldedScan b).tokens = first :: rest ∧
      first.kind.startsStatement = true ∧
      strays.head? = firstCloser? (.behind (a ++ ['\n'])) j ∧
      (∀ t ∈ strays, t.kind = .rightBracket ∨ t.kind = .rightParen) ∧
      (foldedScan (a ++ '\n' :: (j ++ '\n' :: b))).tokens = (foldedScan a).tokens ++
        (strays ++ (foldedScan b).tokens.map (Token.relocate (.down lines))) ∧
      (foldedScan (a ++ '\n' :: (j ++ '\n' :: b))).errors = (foldedScan a).errors ++
        (foldedScan b).errors.map (SyntaxError.relocate (.down lines)) ∧
      (foldedScan (a ++ '\n' :: (j ++ '\n' :: b))).eof =
        (foldedScan b).eof.relocate (.down lines) := by
  have hnewline : Text.foldCase '\n' = '\n' := by decide
  have hfold : (a ++ '\n' :: (j ++ '\n' :: b)).map Text.foldCase =
      a.map Text.foldCase ++ '\n' :: (j ++ '\n' :: b.map Text.foldCase) := by
    simp [hnewline, hj.map_foldCase]
  have hplace : Position.first.advanceOver (a.map Text.foldCase ++ ['\n']) =
      .behind (a ++ ['\n']) := by
    rw [Position.advanceOver_first, ← Text.behind_map_foldCase (a ++ ['\n']), List.map_append,
      List.map_singleton, hnewline]
  have hcount : (a.map Text.foldCase ++ '\n' :: (j ++ ['\n'])).count '\n' = lines := by
    rw [List.count_append, Text.count_newline_map_foldCase, ← List.count_append, hlines]
  obtain ⟨first, hfirst, hstarts⟩ := (Option.any_eq_true _ _).mp hb
  obtain ⟨rest, hrest⟩ := List.head?_eq_some_iff.mp hfirst
  have hkind : first.kind ≠ .number ∧ first.kind ≠ .minus := by
    constructor <;> intro hk <;> rw [hk] at hstarts <;> cases hstarts
  obtain ⟨strays, hhead, hclosers, htokens, herrors, heof⟩ :=
    Scan.ofText_append_lines (a := a.map Text.foldCase) hj hrest hkind hcount
  rw [hplace] at hhead
  rw [← hfold] at htokens herrors heof
  exact ⟨first, rest, strays, hrest, hstarts, hhead, hclosers, htokens, herrors, heof⟩

include ha in
theorem ofTextWithin_joined :
    (ofTextWithin limit (a ++ '\n' :: (j ++ '\n' :: b))).statements =
        (ofTextWithin limit a).statements ++
          (ofTextWithin limit b).statements.map (Statement.relocate (.down lines)) ∧
      (ofTextWithin limit (a ++ '\n' :: (j ++ '\n' :: b))).errors =
        ((firstCloser? (.behind (a ++ ['\n'])) j).map strayError).toList ++
          (ofTextWithin limit b).errors.map (SyntaxError.relocate (.down lines)) := by
  obtain ⟨hscan, hclean⟩ := errors_eq_nil ha
  obtain ⟨first, rest, strays, hrest, hstarts, hhead, hclosers, htokens, herrors, heof⟩ :=
    foldedScan_joined hj hb hlines
  cases limit with
  | zero =>
    exact absurd hclean ((statementsTooDeep_astray .document _).errors_ne_nil (State.sound_start rfl))
  | succ levels =>
    have hbefore : ∀ t ∈ (foldedScan a).tokens, t.kind ≠ .eof :=
      fun t ht => (Scan.tokens_wellFormed ht).kind_ne_eof
    have heof' : (foldedScan b).eof.kind = .eof := rfl
    obtain ⟨end_, hrun, hend⟩ :=
      runTokens_behind rest rfl heof' hbefore hclean hclosers hstarts (.down lines)
    have hstray : ∀ e ∈ strays.head?.map strayError, e.position.line ≤ lines := by
      intro e he
      obtain ⟨t, ht, rfl⟩ := Option.mem_map.mp he
      rw [hhead] at ht
      exact firstCloser?_line_le ht hlines
    rw [← hrest, ← htokens, ← heof] at hrun
    rw [← hrest] at hend
    constructor
    · exact congrArg Prod.fst hrun
    · have hsorted := mergeSort_down (foldedScan b).errors (finish (levels + 1) b).errors hstray
        fun e he => one_le_line ((errors_perm (levels + 1) b).mem_iff.mpr he)
      have hfinish : (finish (levels + 1) (a ++ '\n' :: (j ++ '\n' :: b))).errors = end_.errors :=
        congrArg (fun run => run.2.errors) hrun
      rw [hhead] at hsorted hend
      change ((foldedScan _).errors ++ (finish (levels + 1) _).errors).mergeSort _ = _
      rw [hfinish, herrors, hscan, hend]
      exact hsorted

end Joined

/-- A text without errors, a text of closers and white space, and any text whose first token starts a
statement, joined by line feeds. The statements are those of the first text, then those of the last
one, so many lines further down. The first closer is complained about, and then what is wrong with
the last text is, so many lines further down; nothing else is. -/
theorem ofText_joined (a j b : String) (ha : (ofText a).errors = [])
    (hj : ∀ c ∈ j.toList, c = ']' ∨ c = ')' ∨ Text.isWhiteSpace c = true)
    (hb : (foldedTokens b.toList).head?.any (·.kind.startsStatement) = true) :
    (ofText (a ++ "\n" ++ j ++ "\n" ++ b)).statements =
        (ofText a).statements ++ (ofText b).statements.map
          (Statement.relocate (.down ((a ++ "\n" ++ j ++ "\n").toList.count '\n'))) ∧
      (ofText (a ++ "\n" ++ j ++ "\n" ++ b)).errors =
        ((firstCloser? (.behind (a ++ "\n").toList) j.toList).map strayError).toList ++
          (ofText b).errors.map
            (SyntaxError.relocate (.down ((a ++ "\n" ++ j ++ "\n").toList.count '\n'))) := by
  have htext : (a ++ "\n" ++ j ++ "\n" ++ b).toList =
      a.toList ++ '\n' :: (j.toList ++ '\n' :: b.toList) := by simp
  have hlines : (a.toList ++ '\n' :: (j.toList ++ ['\n'])).count '\n' =
      (a ++ "\n" ++ j ++ "\n").toList.count '\n' := by simp
  have hplace : (a ++ "\n").toList = a.toList ++ ['\n'] := by simp
  have hjoined := ofTextWithin_joined ha hj hb hlines
  rw [← htext, ← hplace] at hjoined
  exact hjoined

theorem ofText_joined_by_closers :
    (ofText "repeat 2 [fd 1] ; twice\n\n ) ]\n\nrt ]").statements =
        (ofText "repeat 2 [fd 1] ; twice").statements ++
          (ofText "rt ]").statements.map (Statement.relocate (.down 4)) ∧
      (ofText "repeat 2 [fd 1] ; twice\n\n ) ]\n\nrt ]").errors =
        ⟨.extraneous ⟨.rightParen, ")"⟩ (Kind.accepted Scope.document.continues), ⟨3, 1⟩, 1⟩ ::
          (ofText "rt ]").errors.map (SyntaxError.relocate (.down 4)) := by
  have hblank : Text.isWhiteSpace '\n' = true ∧ Text.isWhiteSpace ' ' = true := by decide
  exact ofText_joined "repeat 2 [fd 1] ; twice" "\n ) ]\n" "rt ]" (by decide +kernel)
    (by simp [hblank]) (by decide +kernel)

end Parsed

end LogoServer
