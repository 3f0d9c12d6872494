import LogoServer.Proofs.Parsed.Errors
import LogoServer.Proofs.Parser.Depth
import Mathlib.Tactic

/-! What the nesting limit bounds: the depth of the parse, and through it the tree of any text. -/
namespace LogoServer

namespace Parser

/-- The functions of the parser, as they call each other with a number of nesting levels left. -/
inductive Routine (levels : Nat) : {α : Type} → Parser α → Prop
  | statements (scope : Scope) : Routine levels (statements levels scope)
  | statementsTooDeep (scope : Scope) : Routine levels (statementsTooDeep scope)
  | sequence (scope : Scope) :
      Routine levels (sequence scope (statement levels (statements levels)))
  | resume (scope : Scope) : Routine levels (resume scope)
  | statement : Routine levels (statement levels (statements levels))
  | statementOf (form : StatementForm) :
      Routine levels (statementOf levels (statements levels) form)
  | arguments (slots : List Slot) :
      Routine levels (arguments levels (statements levels) slots)
  | block : Routine levels (block (statements levels))
  | definition (keyword : Token) (form : DefinitionForm) :
      Routine levels (definition (statements levels) keyword form)
  | binding (keyword : Token) (form : BindingForm) :
      Routine levels (binding levels keyword form)
  | loop (keyword : Token) (form : LoopForm) :
      Routine levels (loop levels (statements levels) keyword form)
  | expr : Routine levels (expr levels)
  | additive : Routine levels (additiveOver levels (primary levels))
  | multiplicative :
      Routine levels (chain Kind.isMultiplicative levels (primary levels))
  | primary : Routine levels (primary levels)
  | primaryTooDeep : Routine levels primaryTooDeep
  | term : Routine levels (term levels (primary levels))
  | missingExpr : Routine levels (missingExpr (primary levels))
  | query (arity : Arity) :
      Routine levels (query arity (additiveOver levels (primary levels)))
  | parenthesized : Routine levels (parenthesized (expr levels))
  | dataList : Routine levels (dataList levels)
  | datumTooDeep : Routine levels datumTooDeep
  | expect (kind : Kind) : Routine levels (expect kind)
  | take : Routine levels take
  | skip (n : Nat) : Routine levels (skip n)
  | skipToCloser (opener closer : Kind) : Routine levels (skipToCloser opener closer)
  | skipConstruct : Routine levels skipConstruct
  | complain (complaint : Complaint) : Routine levels (complain complaint)
  | complainTooDeep : Routine levels complainTooDeep

/-- Each of them comes back to the depth it was called at. -/
theorem Routine.dive {levels : Nat} {α : Type} {p : Parser α} (h : Routine levels p) (s : State) :
    Dive levels s (outcome p s).2 := by
  cases h with
  | statements scope => exact (statements_nests levels scope).dive s
  | statementsTooDeep scope => exact (statementsTooDeep_nests scope).dive s
  | sequence scope =>
    exact (sequence_nests scope (statement_nests (statements_nests levels))).dive s
  | resume scope => exact (resume_nests scope).dive s
  | statement => exact (statement_nests (statements_nests levels)).dive s
  | statementOf form => exact (statementOf_nests (statements_nests levels) form).dive s
  | arguments slots => exact (arguments_nests (statements_nests levels) slots).dive s
  | block => exact (block_nests (statements_nests levels)).dive s
  | definition keyword form =>
    exact (definition_nests (statements_nests levels) keyword form).dive s
  | binding keyword form => exact (binding_nests keyword form).dive s
  | loop keyword form => exact (loop_nests (statements_nests levels) keyword form).dive s
  | expr => exact (expr_nests levels).dive s
  | additive => exact (additiveOver_nests (primary_nests levels)).dive s
  | multiplicative => exact (product_nests (primary_nests levels)).dive s
  | primary => exact (primary_nests levels).dive s
  | primaryTooDeep => exact primaryTooDeep_nests.dive s
  | term => exact (term_nests (primary_nests levels)).dive s
  | missingExpr => exact (missingExpr_nests (primary_nests levels)).dive s
  | query arity => exact (query_nests arity (additiveOver_nests (primary_nests levels))).dive s
  | parenthesized => exact (parenthesized_nests (expr_nests levels)).dive s
  | dataList => exact (dataList_nests levels).dive s
  | datumTooDeep => exact datumTooDeep_nests.dive s
  | expect kind => exact (expect_nests kind).dive s
  | take => exact take_nests.dive s
  | skip n => exact (skip_nests n).dive s
  | skipToCloser opener closer => exact (skipToCloser_nests opener closer).dive s
  | skipConstruct => exact skipConstruct_nests.dive s
  | complain complaint => exact (complain_nests complaint).dive s
  | complainTooDeep => exact complainTooDeep_nests.dive s

end Parser

namespace Parsed

open LogoServer.Parser

variable (limit : Nat) (text : List Char)

theorem statements_allWithin :
    Statement.AllWithin limit (ofTextWithin limit text).statements :=
  (statements_nests limit .document _).2

/-- The parse of a text starts with an empty journal. -/
theorem depth_le {notes : List Note} (h : notes <:+ (finish limit text).journal) :
    depth notes ≤ limit := by
  have hdive := (statements_nests limit .document).dive
    (.start limit (foldedScan text).tokens (foldedScan text).eof)
  have hbound := hdive.bounded notes List.nil_suffix h
  rwa [State.start, depth, Nat.zero_add] at hbound

theorem height_le :
    Statement.longest .height (ofTextWithin limit text).statements ≤ span limit + 2 := by
  have hlongest := (statements_allWithin limit text).longest_le Gauge.height_modest
  change _ ≤ 1 + (1 + span limit) at hlongest
  omega

theorem nesting_le_span :
    Statement.longest .nesting (ofTextWithin limit text).statements ≤ span limit := by
  have hlongest := (statements_allWithin limit text).longest_le Gauge.nesting_modest
  change _ ≤ 0 + (0 + span limit) at hlongest
  omega

theorem span_nestingLimit : span nestingLimit = 14950 := by
  have hspan := two_mul_span nestingLimit
  rw [nestingLimit] at hspan ⊢
  omega

/-- At no point of the parse of a text are more levels entered than the limit allows, every function
of the parser comes back to the depth it was called at, and the tree is of bounded height. -/
theorem recursion_bounded (text : String) :
    (∀ notes, notes <:+ (finish nestingLimit text.toList).journal → depth notes ≤ nestingLimit) ∧
      (∀ (levels : Nat) (α : Type) (p : Parser α), Routine levels p →
        ∀ s, depth (outcome p s).2.journal = depth s.journal) ∧
      Statement.longest .height (ofText text).statements ≤
        3 * nestingLimit * (nestingLimit + 1) / 2 + 2 * nestingLimit ∧
      3 * nestingLimit * (nestingLimit + 1) / 2 + 2 * nestingLimit = 15350 := by
  have hformula : 3 * nestingLimit * (nestingLimit + 1) / 2 + 2 * nestingLimit = 15350 := rfl
  have hheight := height_le nestingLimit text.toList
  rw [span_nestingLimit] at hheight
  refine ⟨fun _ => depth_le nestingLimit text.toList, fun _ _ _ h s => (h.dive s).returns, ?_,
    hformula⟩
  rw [hformula]
  exact hheight.trans (by decide)

/-- Whatever a text nests, its blocks, bodies, groups and lists together with the links of any one
chain stay within the limit. Where nothing is nested in the operands of chains that is all there is;
chains that stand on top of each other add up to more. -/
theorem nesting_bounded (text : String) :
    Statement.longest .reach (ofText text).statements ≤ nestingLimit ∧
      (Statement.arePlain (ofText text).statements = true →
        Statement.longest .nesting (ofText text).statements ≤ nestingLimit) ∧
      Statement.longest .nesting (ofText text).statements ≤
        3 * nestingLimit * (nestingLimit - 1) / 2 + nestingLimit := by
  have hreach := (statements_allWithin nestingLimit text.toList).reach_le
  refine ⟨hreach, fun hplain => ?_, ?_⟩
  · exact (Statement.longest_nesting_le_reach _ hplain).trans hreach
  · have hnesting := nesting_le_span nestingLimit text.toList
    rw [span_nestingLimit] at hnesting
    exact hnesting

/-- A sum whose first operand is a product: each of the two chains keeps within the limit, and no
error is reported, but one stands on top of the other. -/
theorem sum_of_long_product :
    let text := "fd 1" ++ String.join (List.replicate 51 "*1") ++
      String.join (List.replicate 50 "+1")
    (ofText text).errors = [] ∧
      Statement.longest .nesting (ofText text).statements = nestingLimit + 1 := by
  decide +kernel

end Parsed

end LogoServer
