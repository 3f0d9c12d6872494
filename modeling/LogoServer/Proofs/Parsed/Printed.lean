import LogoServer.Proofs.Parsed.Errors
import LogoServer.Proofs.Parser.RestoreStatement

/-! Documents without errors survive being written out and parsed again. -/
namespace LogoServer.Parsed

open LogoServer.Parser

theorem runTokens_printedAll {limit : Nat} {text : List Char}
    (h : (ofTextWithin limit text).errors = []) (place : Position) {eof : Token}
    (heof : eof.kind = .eof) :
    ∃ finish : State,
      runTokens limit (Statement.printedAll place (ofTextWithin limit text).statements) eof =
          ((ofTextWithin limit text).statements, finish) ∧
        finish.errors = [] ∧ finish.rest = [] := by
  let s : State := .start limit (foldedScan text).tokens (foldedScan text).eof
  have hs : s.Sound := State.sound_start rfl
  have hclean : (outcome (Parser.statements limit .document) s).2.errors = [] :=
    (errors_eq_nil h).2
  obtain ⟨ts, ⟨hts, _⟩, hrebuilds⟩ :=
    (statements_restores place limit .document).restores s hs trivial hclean
  have hclear : Clear (.start limit ts eof) (ts ++ []) :=
    ⟨State.sound_start heof, rfl, (List.append_nil ts).symm⟩
  obtain ⟨hbuilt, hclear'⟩ := hrebuilds _ [] hclear rfl
  rw [hts] at hbuilt hclear'
  refine ⟨(runTokens limit (Statement.printedAll place (ofTextWithin limit text).statements) eof).2,
    ?_, hclear'.errors, hclear'.rest⟩
  have hagain : (runTokens limit
      (Statement.printedAll place (ofTextWithin limit text).statements) eof).1 =
        (ofTextWithin limit text).statements := hbuilt
  exact Prod.ext hagain rfl

/-- The statements of a text without errors are parsed from their print as they were, token for
token, within the same nesting limit. Nothing is complained about and nothing is left. -/
theorem runTokens_printed (text : String) (h : (ofText text).errors = []) (place : Position)
    (eof : Token) (heof : eof.kind = .eof) :
    ∃ finish : State,
      runTokens nestingLimit (Statement.printedAll place (ofText text).statements) eof =
          ((ofText text).statements, finish) ∧
        finish.errors = [] ∧ finish.rest = [] :=
  runTokens_printedAll h place heof

theorem runTokens_printed_of_reporters :
    ((Statement.printedAll .first
        (ofText "to f :x show first random 3 < :x end define \"g [[] [f towards + 1]]").statements).map
      (·.text)) =
        ["to", "f", ":x", "show", "(", "first", "(", "random", "3", ")", ")", "<", ":x", "end",
          "define", "\"g", "[", "[", "]", "[", "f", "(", "towards", ")", "+", "1", "]", "]"] ∧
      ∃ finish : State,
        runTokens nestingLimit (Statement.printedAll .first (ofText
            "to f :x show first random 3 < :x end define \"g [[] [f towards + 1]]").statements)
          (.endOfText .first) = ((ofText
            "to f :x show first random 3 < :x end define \"g [[] [f towards + 1]]").statements,
          finish) ∧ finish.errors = [] ∧ finish.rest = [] :=
  ⟨by decide +kernel, runTokens_printed _ (by decide +kernel) .first (.endOfText .first) rfl⟩

end LogoServer.Parsed
