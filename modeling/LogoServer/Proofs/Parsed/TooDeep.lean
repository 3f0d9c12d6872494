import LogoServer.Proofs.Parsed.Reading
import LogoServer.Proofs.Parser.Trimming
import Mathlib.Tactic

/-! What the nesting limit does to a text that would be free of errors without it. -/
namespace LogoServer.Parsed

open LogoServer.Parser

/-- Tokens that are parsed without a complaint under one limit are parsed under another one with no
complaint but that about the limit, which is made at most once. What is beyond the limit is passed
over up to its own closer, so that the same tokens are left and the tree is the trimmed one. This
needs that no operand beyond the limit is a bare reporter that takes inputs and that counting finds
the closers. -/
theorem too_deep_alone (limit larger : Nat) (tokens : List Token) (eof : Token)
    (heof : eof.kind = .eof) (hclean : (runTokens larger tokens eof).2.errors = [])
    (hreporters : sparesReporters limit (runTokens larger tokens eof).2.journal = true)
    (hspared : Statement.bodySpared .document limit (runTokens larger tokens eof).1 = true) :
    ((runTokens limit tokens eof).2.errors = [] ∨
        ∃ e : SyntaxError, e.isTooDeep = true ∧ (runTokens limit tokens eof).2.errors = [e]) ∧
      (runTokens limit tokens eof).2.rest = (runTokens larger tokens eof).2.rest ∧
      Statement.BodyTrims limit (runTokens larger tokens eof).1 (runTokens limit tokens eof).1 := by
  have hnone : (runTokens larger tokens eof).2.journal.filterMap Note.error? = [] := by
    rw [State.errors, List.filterMap_reverse] at hclean
    exact List.reverse_eq_nil_iff.mp hclean
  let c : Cut := ⟨limit, (runTokens larger tokens eof).2.journal, hnone, hreporters⟩
  have hstart : Beside c limit (.start larger tokens eof) (.start limit tokens eof) :=
    ⟨State.sound_start heof, Nat.zero_add limit, rfl, rfl, .inl ⟨rfl, rfl⟩⟩
  obtain ⟨htrims, hfinish⟩ := statements_tracks larger limit .document _ _ hstart trivial
    List.suffix_rfl hspared
  refine ⟨?_, hfinish.rest, htrims⟩
  rcases hfinish.mild with ⟨_, herrors⟩ | ⟨_, herrors⟩
  · exact .inl herrors
  · exact .inr herrors

/-- The tokens of a point whose first coordinate stands in so many parentheses. -/
def pointInParens (n : Nat) (coordinate : String) : Scan :=
  Scan.ofText ("setxy " ++ String.join (List.replicate n "(") ++ coordinate ++
    String.join (List.replicate n ")") ++ " 4").toList

theorem operator_too_deep :
    ∃ e : SyntaxError, e.isTooDeep = true ∧
      (runTokens 2 (pointInParens 1 "1+xcor").tokens (pointInParens 1 "1+xcor").eof).2.errors =
        [e] := by
  have hreport := too_deep_alone 2 3 (pointInParens 1 "1+xcor").tokens
    (pointInParens 1 "1+xcor").eof rfl (by decide +kernel) (by decide +kernel) (by decide +kernel)
  rcases hreport.1 with hnone | hone
  · exact absurd hnone (by decide +kernel)
  · exact hone

/-- A bare reporter beyond the limit is passed over without its inputs, and what is left of it is
complained about in its turn. -/
theorem reporter_too_deep :
    (runTokens (nestingLimit + 2) (pointInParens 99 "1+sum 2 3").tokens
        (pointInParens 99 "1+sum 2 3").eof).2.errors = [] ∧
      (runTokens nestingLimit (pointInParens 99 "1+sum 2 3").tokens
        (pointInParens 99 "1+sum 2 3").eof).2.errors.map SyntaxError.isTooDeep =
          [true, false] := by
  decide +kernel

end LogoServer.Parsed
