import LogoServer.Parsed.Basic
import LogoServer.Proofs.Parser.Statement
import LogoServer.Proofs.Token.Partition
import Mathlib.Tactic

/-! What a parsed document says about the tokens of its text: its events come in reading order
whatever is wrong with the text, and if nothing is, the statements are derived from all tokens. -/
namespace LogoServer

open Grammar LogoServer.Parser

/-- The tokens of a text whose letter case is folded. -/
def foldedTokens (text : List Char) : List Token :=
  (Scan.ofText (text.map Text.foldCase)).tokens

namespace Parsed

/-- The parse of a text is a passage over its tokens that keeps to the account of statements. -/
theorem exists_passage (limit : Nat) (text : List Char) :
    ∃ (s t : State) (notes : List Note), s.Sound ∧ s.rest = foldedTokens text ∧
      Passage s notes t ∧ Gathered (ofTextWithin limit text).events (takenOf notes) ∧
      ((ofTextWithin limit text).errors = [] → t.errors = [] ∧ t.current.kind = .eof ∧
        Each Sentence (ofTextWithin limit text).statements (takenOf notes)) := by
  let scan := Scan.ofText (text.map Text.foldCase)
  let s : State := .start limit scan.tokens scan.eof
  have hs : s.Sound := State.sound_start rfl
  obtain ⟨notes, hpassage, hgathered, hderived⟩ := statements_reads limit .document s hs trivial
  refine ⟨s, _, notes, hs, rfl, hpassage, hgathered, fun h => ?_⟩
  have hsorted : (scan.errors ++
      (outcome (Parser.statements limit .document) s).2.errors).mergeSort
        (fun a b => a.position.notAfter b.position) = [] := h
  have herrors := (List.mergeSort_perm _ _).symm.trans (.of_eq hsorted)
  obtain ⟨_, hclean⟩ := List.append_eq_nil_iff.mp herrors.eq_nil
  exact ⟨hclean, statements_stops limit .document hs hclean, hderived hclean⟩

/-- Events are about some of the tokens, in their order. -/
theorem events_gathered (limit : Nat) (text : List Char) :
    Gathered (ofTextWithin limit text).events (foldedTokens text) := by
  obtain ⟨s, t, notes, _, hrest, hpassage, hgathered, _⟩ := exists_passage limit text
  refine ⟨?_, hgathered.fits⟩
  rw [← hrest, hpassage.rest_eq]
  exact hgathered.sublist.trans ((takenOf_sublist notes).trans (List.sublist_append_left _ _))

theorem events_pairwise_precedes (limit : Nat) (text : List Char) :
    ((ofTextWithin limit text).events.map Event.token).Pairwise Token.Precedes :=
  (Scan.tokens_pairwise_precedes _).sublist (events_gathered limit text).sublist

theorem event_wellFormed {limit : Nat} {text : List Char} {e : Event}
    (he : e ∈ (ofTextWithin limit text).events) : e.token.toLexeme.WellFormed :=
  Scan.tokens_wellFormed
    ((events_gathered limit text).sublist.subset (List.mem_map_of_mem he))

/-- Whatever is wrong with a text, its events are about tokens of the text, in reading order and
each at most once; none is about the mark of the end, and every token is of the kind its part asks
for. -/
theorem events_in_reading_order (text : String) :
    ((ofText text).events.map Event.token).Sublist (foldedTokens text.toList) ∧
      (∀ e ∈ (ofText text).events, e.token.kind ≠ .eof) ∧
      ((ofText text).events.map (·.token.position)).Pairwise Position.Before ∧
      ∀ e ∈ (ofText text).events, e.Fits := by
  have hgathered := events_gathered nestingLimit text.toList
  refine ⟨hgathered.sublist, fun e he => (hgathered.fits e he).kind_ne_eof, ?_, hgathered.fits⟩
  have hprecedes := List.pairwise_map.mp (events_pairwise_precedes nestingLimit text.toList)
  refine List.pairwise_map.mpr (hprecedes.imp_of_mem ?_)
  intro a b ha _ hab
  exact hab.before (event_wellFormed ha)

theorem derived_of_errors_eq_nil {text : String} (h : (ofText text).errors = []) :
    Each Sentence (ofText text).statements (foldedTokens text.toList) := by
  obtain ⟨s, t, notes, hs, hrest, hpassage, _, hderived⟩ :=
    exists_passage nestingLimit text.toList
  obtain ⟨hclean, heof, hsentences⟩ := hderived h
  -- Tokens are never marks of the end, so the parse stopped behind the last of them.
  have hexhausted : t.rest = [] := by
    cases hahead : t.rest with
    | nil => rfl
    | cons u us =>
      have hu : u ∈ foldedTokens text.toList := by
        rw [← hrest, hpassage.rest_eq, hahead]
        simp
      have hkind : u.kind = .eof := by simpa [State.current, hahead] using heof
      exact absurd hkind (Scan.tokens_wellFormed hu).kind_ne_eof
  have htokens : foldedTokens text.toList = takenOf notes := by
    rw [← hrest, hpassage.rest_eq, hpassage.token?_eq_takenOf hs hclean, hexhausted,
      List.append_nil]
  rw [htokens]
  exact hsentences

/-- A text without errors is derived, token for token, with the statements as its derivation. -/
theorem sentences_of_errors_eq_nil (text : String) (h : (ofText text).errors = []) :
    Each Sentence (ofText text).statements (foldedTokens text.toList) ∧
      Statement.areWhole DefinitionForm.mayStayOpen (ofText text).statements = true :=
  ⟨derived_of_errors_eq_nil h, (derived_of_errors_eq_nil h).sentences_areWhole⟩

theorem sentences_of_procedure :
    Each Sentence (ofText "to square :n\n  repeat 4 [fd :n rt 90]\nend square 3 + 4 * 5").statements
        (foldedTokens "to square :n\n  repeat 4 [fd :n rt 90]\nend square 3 + 4 * 5".toList) ∧
      Statement.areWhole DefinitionForm.mayStayOpen
        (ofText "to square :n\n  repeat 4 [fd :n rt 90]\nend square 3 + 4 * 5").statements = true :=
  sentences_of_errors_eq_nil _ (by decide +kernel)

/-- A text can be free of errors and its tree still lack the closing keyword of `define`. -/
theorem define_without_end :
    (ofText "define \"f [[x] [fd 1]]").errors = [] ∧
      Statement.areWhole (fun _ => false)
        (ofText "define \"f [[x] [fd 1]]").statements = false := by
  decide +kernel

end Parsed

end LogoServer
