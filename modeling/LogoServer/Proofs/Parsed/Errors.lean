import LogoServer.Proofs.Parsed.Reading
import LogoServer.Proofs.Parser.Complaints
import Mathlib.Tactic

/-! The errors of a parsed document: one for each place that is wrong. Stray characters and
complaints of the parser never fall on the same place, so sorting the two together keeps them
apart. -/
namespace LogoServer

open LogoServer.Parser SyntaxError

/-- At most one of the errors reports the nesting limit, and one does if they share a place. -/
def SyntaxError.Distinct (a b : SyntaxError) : Prop :=
  (a.isTooDeep = false ∨ b.isTooDeep = false) ∧
    (a.position = b.position → a.isTooDeep = true ∨ b.isTooDeep = true)

theorem SyntaxError.Distinct.symm {a b : SyntaxError} (h : a.Distinct b) : b.Distinct a :=
  ⟨h.1.symm, fun hp => (h.2 hp.symm).symm⟩

theorem SyntaxError.Apart.distinct {a b : SyntaxError} (h : a.Apart b) : a.Distinct b := by
  refine ⟨h.1, fun hp => ?_⟩
  rcases h.2 with hbefore | ⟨_, hdeep⟩
  · exact absurd (hp ▸ hbefore) (Position.not_before_self _)
  · exact hdeep

theorem SyntaxError.Distinct.apart {a b : SyntaxError} (h : a.Distinct b)
    (hle : a.position.notAfter b.position = true) : a.Apart b := by
  refine ⟨h.1, ?_⟩
  rcases Position.before_or_eq_of_notAfter hle with hbefore | hp
  · exact .inl hbefore
  · exact .inr ⟨hp, h.2 hp⟩

namespace Parsed

/-- The scan of a text whose letter case is folded. -/
def foldedScan (text : List Char) : Scan :=
  Scan.ofText (text.map Text.foldCase)

/-- How the parse of a text ends. -/
def finish (limit : Nat) (text : List Char) : State :=
  (runTokens limit (foldedScan text).tokens (foldedScan text).eof).2

variable (limit : Nat) (text : List Char)

theorem errors_perm : (ofTextWithin limit text).errors.Perm
    ((foldedScan text).errors ++ (finish limit text).errors) :=
  List.mergeSort_perm _ _

/-- A text without errors has no stray characters, and the parser complains about nothing. -/
theorem errors_eq_nil {limit : Nat} {text : List Char} (h : (ofTextWithin limit text).errors = []) :
    (foldedScan text).errors = [] ∧ (finish limit text).errors = [] := by
  have hperm := errors_perm limit text
  rw [h] at hperm
  exact List.append_eq_nil_iff.mp hperm.nil_eq.symm

theorem exists_notes : ∃ notes,
    Passage (.start limit (foldedScan text).tokens (foldedScan text).eof) notes
      (finish limit text) := by
  have hs : (State.start limit (foldedScan text).tokens (foldedScan text).eof).Sound :=
    State.sound_start rfl
  obtain ⟨notes, hpassage, _⟩ := statements_reads limit .document _ hs trivial
  exact ⟨notes, hpassage⟩

theorem start_ordered :
    (State.start limit (foldedScan text).tokens (foldedScan text).eof).Ordered :=
  Scan.stream_pairwise_before _

theorem finish_errors_pairwise_apart : (finish limit text).errors.Pairwise Apart := by
  obtain ⟨notes, hpassage⟩ := exists_notes limit text
  rw [hpassage.errors_eq]
  exact hpassage.errors_pairwise_apart (start_ordered limit text)

/-- A stray character is complained about by itself. -/
theorem distinct_of_mem_errors {e e' : SyntaxError} (he : e ∈ (foldedScan text).errors)
    (he' : e' ∈ (finish limit text).errors) : e.Distinct e' := by
  obtain ⟨c, _, heq⟩ := Scan.mem_errors_iff.mp he
  obtain ⟨notes, hpassage⟩ := exists_notes limit text
  rw [hpassage.errors_eq] at he'
  obtain ⟨t, ht, _, rfl⟩ := hpassage.exists_of_mem_errors he'
  refine ⟨.inl (by rw [heq]; rfl), fun hp => ?_⟩
  exact absurd hp (Scan.position_ne_of_mem_errors he ht)

theorem errors_pairwise_distinct : (ofTextWithin limit text).errors.Pairwise Distinct := by
  rw [(errors_perm limit text).pairwise_iff Distinct.symm]
  refine List.pairwise_append.mpr ⟨?_, ?_, fun e he e' he' => ?_⟩
  · refine (Scan.errors_pairwise_before _).imp_of_mem ?_
    intro a b ha _ hab
    obtain ⟨c, _, heq⟩ := Scan.mem_errors_iff.mp ha
    exact Apart.distinct ⟨.inl (by rw [heq]; rfl), .inl hab⟩
  · exact (finish_errors_pairwise_apart limit text).imp Apart.distinct
  · exact distinct_of_mem_errors limit text he he'

theorem errors_pairwise_notAfter :
    (ofTextWithin limit text).errors.Pairwise fun a b => a.position.notAfter b.position := by
  refine List.pairwise_mergeSort ?_ ?_ _
  · intro a b c
    exact Position.notAfter_trans
  · intro a b
    exact Position.notAfter_total a.position b.position

theorem errors_apart : (ofTextWithin limit text).errors.Pairwise Apart :=
  ((errors_pairwise_distinct limit text).and (errors_pairwise_notAfter limit text)).imp
    fun h => h.1.apart h.2

/-- The errors of a text stand in reading order, no two at the same place; only the report of the
nesting limit, which is made at most once, may stand at the place of one other error. Between two
complaints of the parser, that report apart, a token of the text was matched, and at most one of
them is about the end of the text. -/
theorem one_error_per_place (text : String) :
    (ofText text).errors.Pairwise Apart ∧
      (∀ p : Position, ((ofText text).errors.filter (·.position = p)).length ≤ 2) ∧
      (∀ (earlier between later : List Note) (e e' : SyntaxError),
        (finish nestingLimit text.toList).journal.reverse =
          earlier ++ .complained e :: (between ++ .complained e' :: later) →
        e.isTooDeep = false → e'.isTooDeep = false →
        ∃ t ∈ foldedTokens text.toList, Note.taken t ∈ between) ∧
      ((finish nestingLimit text.toList).errors.filter fun e =>
        !e.isTooDeep && e.position = (foldedScan text.toList).finish).length ≤ 1 := by
  have hapart := errors_apart nestingLimit text.toList
  have hparser := finish_errors_pairwise_apart nestingLimit text.toList
  refine ⟨hapart, fun p => length_le_two (hapart.filter _) p (by simp), ?_,
    length_le_one (hparser.filter _) (foldedScan text.toList).finish (by simp)⟩
  intro earlier between later e e' hjournal he he'
  obtain ⟨notes, hpassage⟩ := exists_notes nestingLimit text.toList
  have hnotes : (finish nestingLimit text.toList).journal.reverse = notes := by
    rw [hpassage.journal_eq]
    simp [State.start]
  exact hpassage.exists_taken_between (hnotes.symm.trans hjournal) he he'

end Parsed

end LogoServer
