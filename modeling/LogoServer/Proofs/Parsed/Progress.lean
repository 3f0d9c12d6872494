import LogoServer.Proofs.Parsed.Nesting
import LogoServer.Proofs.Parser.Progress
import Mathlib.Tactic

/-! Progress of whole parses: every function of the parser goes forward, its loops are over when
their tests fail, and at the end no token is left. -/
namespace LogoServer

namespace Parser

/-- Each function of the parser goes forward. -/
theorem Routine.forward {levels : Nat} {α : Type} {p : Parser α} (h : Routine levels p) :
    Forward p := by
  have hstatements := statements_forward levels
  cases h with
  | statements scope => exact hstatements scope
  | statementsTooDeep scope => exact statementsTooDeep_forward scope
  | sequence scope => exact sequence_forward scope (statement_advances hstatements levels)
  | resume scope => exact resume_forward scope
  | statement => exact (statement_advances hstatements levels).forward
  | statementOf form => exact (statementOf_advances hstatements levels form).forward
  | arguments slots => exact arguments_forward hstatements levels slots
  | block => exact block_forward hstatements
  | definition keyword form => exact definition_forward hstatements keyword form
  | binding keyword form => exact binding_forward levels keyword form
  | loop keyword form => exact loop_forward hstatements levels keyword form
  | expr => exact (expr_steps levels).forward
  | additive => exact (sum_steps levels).forward
  | multiplicative => exact (product_steps levels).forward
  | primary => exact (primary_steps levels).forward
  | primaryTooDeep => exact primaryTooDeep_steps.forward
  | term => exact (term_steps (primary_steps levels) levels).forward
  | missingExpr => exact missingExpr_forward (primary_steps levels).forward
  | query arity => exact (query_advances arity (sum_steps levels).forward).forward
  | parenthesized => exact (parenthesized_advances (expr_steps levels).forward).forward
  | dataList => exact (dataList_advances levels).forward
  | datumTooDeep => exact datumTooDeep_advances.forward
  | expect kind => exact expect_forward kind
  | take => exact take_advances.forward
  | skip n => exact skip_forward n
  | skipToCloser opener closer => exact skipToCloser_forward opener closer
  | skipConstruct => exact skipConstruct_advances.forward
  | complain complaint => exact complain_forward complaint
  | complainTooDeep => exact complainTooDeep_forward

/-- The loops of the parser, each told by its test and its item. -/
inductive Loop (levels : Nat) : {α : Type} → (Kind → Bool) → Parser α → Prop
  /-- Statements of a sequence. -/
  | sequence (scope : Scope) :
      Loop levels Kind.startsStatement (item scope (statement levels (statements levels)))
  /-- Inputs of a call, or of a reporter in parentheses. -/
  | inputs : Loop levels Kind.startsExpr (expr levels)
  /-- Elements of a literal list in which lists may nest this deep. -/
  | data :
      Loop levels (fun kind => kind != .rightBracket && kind != .eof)
        (datum (nested (return .list (← dataList levels))))
  /-- Elements of a literal list in which no list may nest. -/
  | dataTooDeep :
      Loop levels (fun kind => kind != .rightBracket && kind != .eof) (datum datumTooDeep)
  /-- Parameters of `to`. -/
  | references : Loop levels (· == .colonName) take
  /-- Parameters of `define`. -/
  | names : Loop levels (· == .name) take

/-- No loop goes on at the end of the text, and before it each turn takes or passes over a token. -/
theorem Loop.advances {levels : Nat} {α : Type} {more : Kind → Bool} {p : Parser α}
    (h : Loop levels more p) : Advances (more · = true) p ∧ more .eof = false := by
  have hlist : Advances anyKind (do return Datum.list (← dataList levels)) :=
    (dataList_advances levels).map Datum.list
  cases h with
  | sequence scope =>
    have hstatement := statement_advances (statements_forward levels) levels
    exact ⟨(item_advances scope hstatement).anywhere _, rfl⟩
  | inputs => exact ⟨(expr_steps levels).advances, rfl⟩
  | data => exact ⟨(datum_advances hlist.nested).anywhere _, rfl⟩
  | dataTooDeep => exact ⟨(datum_advances datumTooDeep_advances).anywhere _, rfl⟩
  | references | names => exact ⟨take_advances.anywhere _, rfl⟩

/-- The chains of operators, each told by its operators and its operand. -/
inductive Chain (levels : Nat) : (Kind → Bool) → Parser Expr → Prop
  | comparison : Chain levels Kind.isComparison (additiveOver levels (primary levels))
  | sum : Chain levels Kind.isAdditive (chain Kind.isMultiplicative levels (primary levels))
  | product : Chain levels Kind.isMultiplicative (primary levels)

theorem Chain.ends {levels : Nat} {isOperator : Kind → Bool} {operand : Parser Expr}
    (h : Chain levels isOperator operand) {s : State} (hs : s.eof.kind = .eof) :
    ChainEnds isOperator operand s := by
  cases h with
  | comparison => exact chainLinks_ends (sum_steps levels).forward rfl hs
  | sum => exact chainLinks_ends (product_steps levels).forward rfl hs
  | product => exact chainLinks_ends (primary_steps levels).forward rfl hs

/-- Where a statement or an expression starts, what parses it leaves fewer tokens ahead. -/
structure Progresses (levels : Nat) (s : State) : Prop where
  statement : s.current.kind.startsStatement = true →
    (outcome (statement levels (statements levels)) s).2.rest.length < s.rest.length
  expr : s.current.kind.startsExpr = true → ∀ p ∈ [expr levels,
      additiveOver levels (primary levels), chain Kind.isMultiplicative levels (primary levels),
      primary levels], (outcome p s).2.rest.length < s.rest.length

theorem progresses (levels : Nat) {s : State} (hs : s.eof.kind = .eof) : Progresses levels s where
  statement hk :=
    (statement_advances (statements_forward levels) levels).rest_lt hs trivial
      (ne_eof_of_test rfl hk)
  expr hk p hp := by
    have hsteps : Steps StartsExpr p := by
      simp only [List.mem_cons, List.not_mem_nil, or_false] at hp
      rcases hp with rfl | rfl | rfl | rfl
      · exact expr_steps levels
      · exact sum_steps levels
      · exact product_steps levels
      · exact primary_steps levels
    exact hsteps.advances.rest_lt hs hk (ne_eof_of_test rfl hk)

end Parser

namespace Parsed

open LogoServer.Parser

/-- The parse ends at the mark of the end. Each token was matched or passed over once, in reading
order, and the mark was not matched. -/
structure ReadThrough (limit : Nat) (tokens : List Token) (eof : Token) : Prop where
  rest : (runTokens limit tokens eof).2.rest = []
  current : (runTokens limit tokens eof).2.current = eof
  passed : (runTokens limit tokens eof).2.journal.reverse.filterMap Note.token? = tokens
  taken : ∀ t, .taken t ∈ (runTokens limit tokens eof).2.journal → t.kind ≠ .eof

theorem readThrough {limit : Nat} {tokens : List Token} {eof : Token}
    (h : (State.start limit tokens eof).Terminated) : ReadThrough limit tokens eof := by
  have heof : eof.kind = .eof := h.eof_kind
  obtain ⟨notes, hpassage⟩ := (statements_reads limit .document).passes
    (State.start limit tokens eof) (State.sound_start heof) trivial
  change Passage _ notes (runTokens limit tokens eof).2 at hpassage
  have hleads := statements_forward limit .document (State.start limit tokens eof)
  -- The closer of the document is the mark of the end, of whose kind no token is.
  have hrest : (runTokens limit tokens eof).2.rest = [] := by
    refine (statements_ends limit .document heof).elim (fun hk => ?_) id
    exact State.rest_eq_nil hk (hleads.terminated h).rest_kind
  have htokens : notes.filterMap Note.token? = tokens := by
    have hsplit : tokens = _ := hpassage.rest_eq
    rw [hrest, List.append_nil] at hsplit
    exact hsplit.symm
  have hjournal : (runTokens limit tokens eof).2.journal = notes.reverse := by
    rw [hpassage.journal_eq]
    exact List.append_nil _
  refine ⟨hrest, ?_, ?_, fun t ht => h.rest_kind t ?_⟩
  · rw [State.current, hrest]
    exact hpassage.eof_eq
  · rw [hjournal, List.reverse_reverse, htokens]
  · rw [hjournal, List.mem_reverse] at ht
    change t ∈ tokens
    rw [← htokens]
    exact List.mem_filterMap.mpr ⟨.taken t, ht, rfl⟩

theorem terminated_of_text (limit : Nat) (text : List Char) :
    (State.start limit (foldedScan text).tokens (foldedScan text).eof).Terminated :=
  ⟨rfl, fun _ ht => (Scan.tokens_wellFormed ht).kind_ne_eof⟩

/-- Whatever is ahead and however many nesting levels are left, be it none, what parses statements
and expressions gets past the token at which it is called. No function of the parser goes back or
past the mark of the end, and each loop is over because its own test fails. So every text is read to
its end. -/
theorem parse_reads_through :
    (∀ (levels : Nat) (s : State), s.Terminated → Progresses levels s) ∧
      (∀ (levels : Nat) (α : Type) (p : Parser α), Routine levels p →
        ∀ s, State.Leads s (outcome p s).2) ∧
      (∀ (levels : Nat) (α : Type) (more : Kind → Bool) (p : Parser α), Loop levels more p →
        ∀ s : State, s.Terminated → Ends more p s) ∧
      (∀ (levels : Nat) (isOperator : Kind → Bool) (operand : Parser Expr),
        Chain levels isOperator operand → ∀ s : State, s.Terminated →
          ChainEnds isOperator operand s) ∧
      (∀ (opener closer : Kind) (s : State),
        (outcome (skipToCloser opener closer) s).2.current.kind = closer ∨
          (outcome (skipToCloser opener closer) s).2.rest = []) ∧
      (∀ (levels : Nat) (scope : Scope) (s : State), s.Terminated →
        (outcome (Parser.statements levels scope) s).2.current.kind = scope.closer ∨
          (outcome (Parser.statements levels scope) s).2.rest = []) ∧
      (∀ (limit : Nat) (tokens : List Token) (eof : Token),
        (State.start limit tokens eof).Terminated → ReadThrough limit tokens eof) ∧
      ∀ (limit : Nat) (text : List Char),
        ReadThrough limit (foldedScan text).tokens (foldedScan text).eof := by
  refine ⟨fun levels s hs => progresses levels hs.eof_kind, fun _ _ _ h => h.forward, ?_,
    fun _ _ _ h _ hs => h.ends hs.eof_kind, skipToCloser_stops,
    fun levels scope _ hs => statements_ends levels scope hs.eof_kind, fun _ _ _ => readThrough,
    fun limit text => readThrough (terminated_of_text limit text)⟩
  intro levels α more p h s hs
  obtain ⟨hadvances, heof⟩ := h.advances
  exact collect_ends hadvances heof hs.eof_kind

/-- `fd (1` with no nesting level left. -/
theorem parse_reads_through_unclosed :
    let fd : Token := ⟨⟨.keyword .fd, "fd"⟩, ⟨1, 0⟩⟩
    let group : List Token := [⟨⟨.leftParen, "("⟩, ⟨1, 3⟩⟩, ⟨⟨.number, "1"⟩, ⟨1, 4⟩⟩]
    let eof : Token := .endOfText ⟨1, 5⟩
    (outcome (statement 0 (Parser.statements 0)) (.start 0 (fd :: group) eof)).2.rest.length < 3 ∧
      (outcome (primary 0) (.start 0 group eof)).2.rest.length < 2 ∧
      State.Leads (.start 0 group eof) (outcome (expr 0) (.start 0 group eof)).2 ∧
      Ends Kind.startsExpr (expr 0) (.start 0 group eof) ∧
      ChainEnds Kind.isMultiplicative (primary 0) (.start 0 group eof) ∧
      (outcome (Parser.statements 0 .block) (.start 0 group eof)).2.rest = [] ∧
      ReadThrough 0 (fd :: group) eof := by
  intro fd group eof
  have hs : (State.start 0 (fd :: group) eof).Terminated := ⟨rfl, by decide⟩
  have hgroup : (State.start 0 group eof).Terminated := ⟨rfl, by decide⟩
  obtain ⟨hprogresses, hforward, hloops, hchains, -, hsequences, hthrough, -⟩ := parse_reads_through
  refine ⟨(hprogresses 0 _ hs).statement rfl, (hprogresses 0 _ hgroup).expr rfl _ (by simp),
    hforward 0 _ _ .expr _, hloops 0 _ _ _ .inputs _ hgroup, hchains 0 _ _ .product _ hgroup, ?_,
    hthrough 0 _ _ hs⟩
  exact (hsequences 0 .block _ hgroup).resolve_left (by decide)

end Parsed

end LogoServer
