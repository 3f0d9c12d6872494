import LogoServer.Proofs.Parser.Frame
import LogoServer.Proofs.Parser.Statement
import Mathlib.Tactic

/-! Progress of a parse. No parser moves back or goes past the mark of the end, and one that is
called where its first token stands takes or passes over that token. A loop therefore ends because
its test fails and not because its budget is spent, and a sequence ends at its closer or with the
tokens. -/
namespace LogoServer.Parser

variable {α β : Type}

namespace State

/-- The mark of the end is one, and stands behind the tokens only. -/
structure Terminated (s : State) : Prop where
  eof_kind : s.eof.kind = .eof
  rest_kind : ∀ t ∈ s.rest, t.kind ≠ .eof

/-- The second state is of the same parse, no nearer to the first token. -/
structure Leads (s t : State) : Prop where
  rest : t.rest <:+ s.rest
  eof : t.eof = s.eof

namespace Leads

variable {s t u : State}

theorem refl (s : State) : Leads s s :=
  ⟨List.suffix_rfl, rfl⟩

theorem trans (h : Leads s t) (h' : Leads t u) : Leads s u :=
  ⟨h'.rest.trans h.rest, h'.eof.trans h.eof⟩

theorem terminated (h : Leads s t) (hs : s.Terminated) : t.Terminated :=
  ⟨h.eof ▸ hs.eof_kind, fun x hx => hs.rest_kind x (h.rest.subset hx)⟩

end Leads

end State

open State (Leads)

/-! ### Forward -/

/-- The parser neither moves back nor goes past the mark of the end. -/
def Forward (p : Parser α) : Prop :=
  ∀ s, Leads s (outcome p s).2

namespace Forward

variable {p : Parser α}

theorem pure (a : α) : Forward (Pure.pure a : Parser α) :=
  Leads.refl

theorem bind {f : α → Parser β} (hp : Forward p) (hf : ∀ a, Forward (f a)) :
    Forward (p >>= f) :=
  fun s => (hp s).trans (hf _ _)

theorem map (f : α → β) (hp : Forward p) : Forward (do return f (← p)) :=
  hp.bind fun a => pure (f a)

theorem currentKind_bind {f : Kind → Parser α} (h : ∀ k, Forward (f k)) :
    Forward (currentKind >>= f) :=
  fun s => h s.current.kind s

theorem get_bind {f : State → Parser α} (h : ∀ s, Forward (f s)) : Forward (get >>= f) :=
  fun s => h s s

theorem ite {c : Prop} [Decidable c] {q : Parser α} (hp : Forward p) (hq : Forward q) :
    Forward (if c then p else q) := by
  split_ifs
  · exact hp
  · exact hq

theorem nested (hp : Forward p) : Forward (nested p) :=
  fun s => ⟨(hp (s.afterMarking .entered)).rest, (hp (s.afterMarking .entered)).eof⟩

end Forward

theorem skip_forward (n : Nat) : Forward (skip n) :=
  fun s => ⟨List.drop_suffix n s.rest, rfl⟩

theorem complain_forward (complaint : Complaint) : Forward (complain complaint) := by
  intro s
  change Leads s (if s.recovering then s else s.afterComplaint complaint)
  split_ifs
  · exact .refl s
  · exact ⟨List.suffix_rfl, rfl⟩

theorem complainTooDeep_forward : Forward complainTooDeep :=
  fun s => ⟨(rest_complainTooDeep s).symm ▸ List.suffix_rfl, eof_complainTooDeep s⟩

theorem skipToCloser_forward (opener closer : Kind) : Forward (skipToCloser opener closer) :=
  .get_bind fun _ => skip_forward _

/-! ### Advancing -/

/-- Where the test holds of the next kind, the parser takes or passes over that token first. -/
def Advances (start : Kind → Prop) (p : Parser α) : Prop :=
  ∀ s, start s.current.kind → Leads (outcome (skip 1) s).2 (outcome p s).2

namespace Advances

variable {start : Kind → Prop} {p : Parser α}

theorem leads (h : Advances start p) {s : State} (hs : start s.current.kind) :
    Leads s (outcome p s).2 :=
  (skip_forward 1 s).trans (h s hs)

theorem forward (h : Advances anyKind p) : Forward p :=
  fun _ => h.leads trivial

/-- Before the mark of the end there is a token to take or to pass over. -/
theorem rest_lt (h : Advances start p) {s : State} (hs : s.eof.kind = .eof)
    (hk : start s.current.kind) (hne : s.current.kind ≠ .eof) :
    (outcome p s).2.rest.length < s.rest.length := by
  obtain ⟨rest, hrest⟩ := s.exists_rest_of_kind_ne_eof hs hne
  have hle := (h s hk).rest.length_le
  rw [rest_skip, hrest] at hle
  rw [hrest, List.length_cons]
  exact Nat.lt_succ_of_le hle

theorem anywhere (h : Advances anyKind p) (start : Kind → Prop) : Advances start p :=
  fun s _ => h s trivial

theorem bind {f : α → Parser β} (hp : Advances start p) (hf : ∀ a, Forward (f a)) :
    Advances start (p >>= f) :=
  fun s hs => (hp s hs).trans (hf _ _)

theorem map (f : α → β) (hp : Advances start p) : Advances start (do return f (← p)) :=
  hp.bind fun a => .pure (f a)

theorem currentKind_bind {f : Kind → Parser α} (h : ∀ k, start k → Advances (· = k) (f k)) :
    Advances start (currentKind >>= f) :=
  fun s hs => h _ hs s rfl

theorem nested (hp : Advances start p) : Advances start (nested p) :=
  fun s hs =>
    have h := hp (s.afterMarking .entered) hs
    ⟨h.rest, h.eof⟩

/-- Reporting the nesting limit leaves what is ahead as it was. -/
theorem complainTooDeep_bind (hp : Advances start p) :
    Advances start (complainTooDeep >>= fun _ => p) := by
  intro s hs
  obtain ⟨hrest, heof⟩ :=
    hp (outcome complainTooDeep s).2 ((current_complainTooDeep s).symm ▸ hs)
  exact ⟨by rwa [rest_skip, rest_complainTooDeep] at hrest, heof.trans (eof_complainTooDeep s)⟩

end Advances

theorem take_advances : Advances anyKind take :=
  fun s _ => ⟨by rw [rest_skip, List.drop_one]; exact List.suffix_rfl, rfl⟩

theorem takeIf_forward (kind : Kind) : Forward (takeIf kind) :=
  .currentKind_bind fun _ => .ite (take_advances.forward.map some) (.pure none)

theorem expect_forward (kind : Kind) : Forward (expect kind) := by
  refine .get_bind fun s => .ite (take_advances.forward.map some) (.ite ?_ ?_)
  · exact (complain_forward _).bind fun _ => (skip_forward 1).bind fun _ =>
      take_advances.forward.map some
  · exact (complain_forward _).bind fun _ => .pure none

theorem skipConstruct_advances : Advances anyKind skipConstruct := by
  intro s _
  rw [outcome_skipConstruct]
  cases s.current.kind.closer? with
  | none => exact .refl _
  | some closer =>
    refine (skipToCloser_forward s.current.kind closer _).trans ?_
    dsimp only
    split_ifs
    · exact skip_forward 1 _
    · exact .refl _

/-! ### Repetition -/

section Repetition

variable {item : Parser α} (hitem : Forward item)
include hitem

theorem collect_forward (more : Kind → Bool) (budget : List β) (found : List α) :
    Forward (collect more item budget found) := by
  induction budget generalizing found with
  | nil => exact .pure _
  | cons _ budget ih =>
    exact .currentKind_bind fun _ => .ite (hitem.bind fun a => ih (a :: found)) (.pure _)

theorem many_forward (more : Kind → Bool) : Forward (many more item) :=
  .get_bind fun _ => collect_forward hitem more _ []

theorem times_forward (n : Nat) : Forward (times item n) := by
  induction n with
  | zero => exact .pure []
  | succ n ih => exact hitem.bind fun a => ih.map (a :: ·)

theorem inputs_forward (arity : Arity) : Forward (inputs arity item) :=
  (times_forward hitem arity.least).bind fun as =>
    (collect_forward hitem Kind.startsExpr _ []).map (as ++ ·)

end Repetition

/-! ### Literal lists -/

theorem datum_advances {inner : Parser Datum} (hinner : Advances anyKind inner) :
    Advances anyKind (datum inner) := by
  refine .currentKind_bind fun k _ => ?_
  split
  · exact hinner.anywhere _
  all_goals exact (take_advances.map _).anywhere _

theorem bracketed_advances {inner : Parser Datum} (hinner : Advances anyKind inner) :
    Advances anyKind (bracketed inner) :=
  take_advances.bind fun _ => (many_forward (datum_advances hinner).forward _).bind fun _ =>
    (expect_forward _).bind fun _ => .pure _

theorem datumTooDeep_advances : Advances anyKind datumTooDeep :=
  .complainTooDeep_bind fun s _ =>
    (skipConstruct_advances.map fun _ => Datum.atom s.current) s trivial

theorem dataList_advances (levels : Nat) : Advances anyKind (dataList levels) := by
  induction levels with
  | zero => exact bracketed_advances datumTooDeep_advances
  | succ levels ih => exact bracketed_advances (ih.map Datum.list).nested

/-! ### Expressions -/

/-- The parser goes forward, and where the test holds of the next kind it advances. -/
structure Steps (start : Kind → Prop) (p : Parser α) : Prop where
  forward : Forward p
  advances : Advances start p

namespace Steps

variable {start : Kind → Prop} {p : Parser α}

theorem of_advances (h : Advances anyKind p) : Steps start p :=
  ⟨h.forward, h.anywhere start⟩

theorem bind {f : α → Parser β} (hp : Steps start p) (hf : ∀ a, Forward (f a)) :
    Steps start (p >>= f) :=
  ⟨hp.forward.bind hf, hp.advances.bind hf⟩

/-- The kind that was read is the one that the test is about. -/
theorem currentKind_bind {f : Kind → Parser α} (h : ∀ k, Steps (fun _ => start k) (f k)) :
    Steps start (currentKind >>= f) :=
  ⟨.currentKind_bind fun k => (h k).forward, fun s hs => (h s.current.kind).advances s hs⟩

theorem nested (hp : Steps start p) : Steps start (nested p) :=
  ⟨hp.forward.nested, hp.advances.nested⟩

theorem complainTooDeep_bind (hp : Steps start p) :
    Steps start (complainTooDeep >>= fun _ => p) :=
  ⟨complainTooDeep_forward.bind fun _ => hp.forward, .complainTooDeep_bind hp.advances⟩

end Steps

/-- The kind may start an expression. -/
abbrev StartsExpr (kind : Kind) : Prop :=
  kind.startsExpr = true

section Operand

variable {operand : Parser Expr}

theorem chainLinks_forward (isOperator : Kind → Bool) (hoperand : Forward operand)
    (budget : List Token) (room : Nat) (left : Expr) :
    Forward (chainLinks isOperator operand budget room left) := by
  induction budget generalizing room left with
  | nil => exact .pure left
  | cons _ budget ih =>
    refine .currentKind_bind fun _ => .ite (take_advances.forward.bind fun _ =>
      hoperand.bind fun _ => ?_) (.pure left)
    cases room with
    | zero => exact complainTooDeep_forward.bind fun _ => ih 0 left
    | succ room => exact ih room _

theorem query_advances (arity : Arity) (hoperand : Forward operand) :
    Advances anyKind (query arity operand) :=
  take_advances.bind fun _ => (inputs_forward hoperand arity).map _

theorem enclosed_forward (hoperand : Forward operand) : Forward (enclosed operand) := by
  refine .currentKind_bind fun kind => ?_
  split
  · exact .ite (take_advances.forward.bind fun _ => (many_forward hoperand _).map _)
      (hoperand.map _)
  · exact hoperand.map _

theorem parenthesized_advances (hoperand : Forward operand) :
    Advances anyKind (parenthesized operand) :=
  take_advances.bind fun _ => (enclosed_forward hoperand).bind fun _ =>
    (expect_forward _).bind fun _ => .pure _

theorem missingExpr_forward (hoperand : Forward operand) : Forward (missingExpr operand) := by
  refine .get_bind fun s => .ite ?_ ?_
  · exact (complain_forward _).bind fun _ => (skip_forward 1).bind fun _ => hoperand
  · exact (complain_forward _).bind fun _ => .pure _

variable (hoperand : Steps StartsExpr operand)
include hoperand

/-- A chain advances with its first operand. -/
theorem chain_steps (isOperator : Kind → Bool) (levels : Nat) :
    Steps StartsExpr (chain isOperator levels operand) :=
  hoperand.bind fun _ => .get_bind fun _ =>
    chainLinks_forward isOperator hoperand.forward _ levels _

theorem additiveOver_steps (levels : Nat) : Steps StartsExpr (additiveOver levels operand) :=
  chain_steps (chain_steps hoperand _ levels) _ levels

theorem exprOver_steps (levels : Nat) : Steps StartsExpr (exprOver levels operand) :=
  chain_steps (additiveOver_steps hoperand levels) _ levels

/-- Where an expression starts, a branch is chosen that takes the token. -/
theorem term_steps (levels : Nat) : Steps StartsExpr (term levels operand) := by
  have hmissing (kind : Kind) (hkind : kind.startsExpr = false) :
      Steps (fun _ => StartsExpr kind) (missingExpr operand) :=
    ⟨missingExpr_forward hoperand.forward, fun _ hk => absurd hk (by simp [StartsExpr, hkind])⟩
  refine .currentKind_bind fun kind => ?_
  split
  · exact .of_advances (take_advances.map _)
  · exact .of_advances (take_advances.map _)
  · exact .of_advances (take_advances.map _)
  · exact .of_advances ((dataList_advances levels).map _)
  · exact .of_advances (parenthesized_advances (exprOver_steps hoperand levels).forward)
  · rename_i k
    cases hk : k.queryArity? with
    | none => exact hmissing _ (by rw [Kind.startsExpr, hk]; rfl)
    | some arity =>
      exact .of_advances (query_advances arity (additiveOver_steps hoperand levels).forward)
  · rename_i hkeyword
    refine hmissing kind ?_
    cases kind <;> first | rfl | contradiction | exact absurd rfl (hkeyword _)

end Operand

/-- At the nesting limit the construct that starts here is passed over. -/
theorem primaryTooDeep_steps : Steps StartsExpr primaryTooDeep := by
  refine .complainTooDeep_bind (.currentKind_bind fun k => ?_)
  split_ifs with hk
  · exact .of_advances (skipConstruct_advances.bind fun _ => .pure _)
  · exact ⟨.pure _, fun _ hk' => absurd hk' hk⟩

theorem primary_steps (levels : Nat) : Steps StartsExpr (primary levels) := by
  induction levels with
  | zero => exact primaryTooDeep_steps
  | succ levels ih => exact (term_steps ih levels).nested

theorem product_steps (levels : Nat) :
    Steps StartsExpr (chain Kind.isMultiplicative levels (primary levels)) :=
  chain_steps (primary_steps levels) _ levels

theorem sum_steps (levels : Nat) : Steps StartsExpr (additiveOver levels (primary levels)) :=
  additiveOver_steps (primary_steps levels) levels

theorem expr_steps (levels : Nat) : Steps StartsExpr (expr levels) :=
  exprOver_steps (primary_steps levels) levels

/-! ### Statements -/

section Body

variable {body : Body} (hbody : ∀ scope, Forward (body scope))
include hbody

theorem block_forward : Forward (block body) :=
  (expect_forward _).bind fun _ => (hbody .block).bind fun _ =>
    (expect_forward _).bind fun _ => .pure _

theorem argument_forward (levels : Nat) (slot : Slot) : Forward (argument levels body slot) := by
  cases slot with
  | expr => exact (expr_steps levels).forward.map _
  | block => exact (block_forward hbody).map _

theorem arguments_forward (levels : Nat) (slots : List Slot) :
    Forward (arguments levels body slots) := by
  induction slots with
  | nil => exact .pure []
  | cons slot slots ih => exact (argument_forward hbody levels slot).bind fun a => ih.map (a :: ·)

theorem definition_forward (keyword : Token) (form : DefinitionForm) :
    Forward (definition body keyword form) := by
  match form with
  | .to =>
    exact (expect_forward _).bind fun _ => (many_forward take_advances.forward _).bind fun _ =>
      (hbody .procedure).bind fun _ => (expect_forward _).bind fun _ => .pure _
  | .define =>
    exact (expect_forward _).bind fun _ => (expect_forward _).bind fun _ =>
      (expect_forward _).bind fun _ => (many_forward take_advances.forward _).bind fun _ =>
      (expect_forward _).bind fun _ => (block_forward hbody).bind fun _ =>
      (expect_forward _).bind fun _ => (takeIf_forward _).bind fun _ => .pure _

omit hbody in
theorem binding_forward (levels : Nat) (keyword : Token) (form : BindingForm) :
    Forward (binding levels keyword form) := by
  cases form with
  | name =>
    exact (expr_steps levels).forward.bind fun _ => (expect_forward _).bind fun _ => .pure _
  | make | localmake =>
    exact (expect_forward _).bind fun _ => (expr_steps levels).forward.bind fun _ => .pure _

theorem loop_forward (levels : Nat) (keyword : Token) (form : LoopForm) :
    Forward (loop levels body keyword form) :=
  (expect_forward _).bind fun _ => (expect_forward _).bind fun _ =>
    (inputs_forward (expr_steps levels).forward _).bind fun _ => (expect_forward _).bind fun _ =>
    (block_forward hbody).bind fun _ => .pure _

theorem statementOf_advances (levels : Nat) (form : StatementForm) :
    Advances anyKind (statementOf levels body form) := by
  refine take_advances.bind fun first => ?_
  cases form with
  | command slots => exact (arguments_forward hbody levels slots).map _
  | setPosition => exact (expect_forward _).bind fun _ => (expr_steps levels).forward.map _
  | definition form => exact definition_forward hbody first form
  | binding form => exact binding_forward levels first form
  | loop form => exact loop_forward hbody levels first form
  | call => exact (many_forward (expr_steps levels).forward _).map _

theorem statement_advances (levels : Nat) : Advances anyKind (statement levels body) :=
  .currentKind_bind fun _ _ => (statementOf_advances hbody levels _).anywhere _

end Body

theorem resume_forward (scope : Scope) : Forward (resume scope) :=
  .get_bind fun _ => .ite (.pure ()) ((complain_forward _).bind fun _ => skip_forward _)

theorem item_advances (scope : Scope) {p : Parser Statement} (hp : Advances anyKind p) :
    Advances anyKind (item scope p) :=
  hp.bind fun _ => (resume_forward scope).bind fun _ => .pure _

theorem sequence_forward (scope : Scope) {p : Parser Statement} (hp : Advances anyKind p) :
    Forward (sequence scope p) :=
  (resume_forward scope).bind fun _ => many_forward (item_advances scope hp).forward _

theorem statementsTooDeep_forward (scope : Scope) : Forward (statementsTooDeep scope) :=
  complainTooDeep_forward.bind fun _ => (skipToCloser_forward _ _).bind fun _ => .pure _

theorem statements_forward (levels : Nat) (scope : Scope) : Forward (statements levels scope) := by
  induction levels generalizing scope with
  | zero => exact statementsTooDeep_forward scope
  | succ levels ih => exact (sequence_forward scope (statement_advances ih levels)).nested

/-! ### Loops end -/

section Loop

variable {more : Kind → Bool} {item : Parser α} (hitem : Advances (more · = true) item)
include hitem

theorem Turns.leads {s t : State} {as : List α} (h : Turns more item s as t) : Leads s t := by
  induction h with
  | done s => exact .refl s
  | turn hk _ ih => exact (hitem.leads hk).trans ih

variable (hmore : more .eof = false)
include hmore

/-- Each turn takes or passes over a token. -/
theorem Turns.length_add_le {s t : State} {as : List α} (h : Turns more item s as t)
    (hs : s.eof.kind = .eof) : as.length + t.rest.length ≤ s.rest.length := by
  induction h with
  | done s => simp
  | turn hk _ ih =>
    have hlt := hitem.rest_lt hs hk (ne_eof_of_test hmore hk)
    have hle := ih ((hitem.leads hk).eof ▸ hs)
    rw [List.length_cons]
    omega

end Loop

/-- The loop takes a number of turns, each of which takes or passes over a token, until its test
fails. Every budget that is not less than the number of tokens ahead lets it come so far. -/
def Ends (more : Kind → Bool) (item : Parser α) (s : State) : Prop :=
  ∃ as t, Turns more item s as t ∧ more t.current.kind = false ∧
    as.length + t.rest.length ≤ s.rest.length ∧
    ∀ {β : Type} (budget : List β) (found : List α), s.rest.length ≤ budget.length →
      outcome (collect more item budget found) s = (found.reverse ++ as, t)

theorem collect_ends {more : Kind → Bool} {item : Parser α}
    (hitem : Advances (more · = true) item) (hmore : more .eof = false) {s : State}
    (hs : s.eof.kind = .eof) : Ends more item s := by
  obtain ⟨as, -, hturns, -, hstop⟩ := collect_turns more item s.rest [] s
  have hlength := hturns.length_add_le hitem hmore hs
  have hend : more (outcome (collect more item s.rest []) s).2.current.kind = false := by
    rcases Nat.lt_or_ge as.length s.rest.length with hlt | hge
    · exact hstop hlt
    · have hrest : (outcome (collect more item s.rest []) s).2.rest = [] :=
        List.length_eq_zero_iff.mp (by omega)
      rw [State.kind_of_rest ((hturns.leads hitem).eof ▸ hs) hrest]
      exact hmore
  exact ⟨as, _, hturns, hend, hlength, fun budget found hbudget =>
    collect_of_turns hturns budget found (by omega) fun _ => hend⟩

/-- The chain ends before a token that is no operator of its own. Every budget that is not less than
the number of tokens ahead lets it come so far. -/
def ChainEnds (isOperator : Kind → Bool) (operand : Parser Expr) (s : State) : Prop :=
  ∀ room left, ∃ e t, isOperator t.current.kind = false ∧
    ∀ budget : List Token, s.rest.length ≤ budget.length →
      outcome (chainLinks isOperator operand budget room left) s = (e, t)

section Chain

variable {isOperator : Kind → Bool} {operand : Parser Expr} (hoperand : Forward operand)
  (heof : isOperator .eof = false)
include hoperand heof

/-- A link takes its operator, and the chain goes on with what is ahead then. -/
theorem exists_link {s : State} (hs : s.eof.kind = .eof)
    (hk : isOperator s.current.kind = true) (room : Nat) (left : Expr) :
    ∃ room' left' t, t.eof = s.eof ∧ t.rest.length < s.rest.length ∧
      ∀ b budget, outcome (chainLinks isOperator operand (b :: budget) room left) s =
        outcome (chainLinks isOperator operand budget room' left') t := by
  have hlink : Advances anyKind (take >>= fun _ => operand) :=
    take_advances.bind fun _ => hoperand
  have hlt := hlink.rest_lt hs trivial (ne_eof_of_test heof hk)
  have hends : (outcome operand (outcome take s).2).2.eof = s.eof := (hlink.forward s).eof
  change (outcome operand (outcome take s).2).2.rest.length < _ at hlt
  cases room with
  | zero =>
    refine ⟨0, left, (outcome complainTooDeep (outcome operand (outcome take s).2).2).2, ?_, ?_,
      fun b budget => ?_⟩
    · rw [eof_complainTooDeep, hends]
    · rw [rest_complainTooDeep]
      exact hlt
    · rw [outcome_chainLinks_cons, if_pos hk]
  | succ room =>
    refine ⟨room, .binary left s.current (outcome operand (outcome take s).2).1,
      (outcome operand (outcome take s).2).2, hends, hlt, fun b budget => ?_⟩
    rw [outcome_chainLinks_cons, if_pos hk]

theorem chainLinks_ends {s : State} (hs : s.eof.kind = .eof) : ChainEnds isOperator operand s := by
  intro room left
  induction hn : s.rest.length using Nat.strong_induction_on generalizing room left s with
  | _ n ih =>
    by_cases hk : isOperator s.current.kind = true
    · obtain ⟨room', left', t, hteof, hlt, hlink⟩ := exists_link hoperand heof hs hk room left
      obtain ⟨e, u, hend, hloop⟩ := ih _ (hn ▸ hlt) (hteof ▸ hs) room' left' rfl
      refine ⟨e, u, hend, fun budget hbudget => ?_⟩
      cases budget with
      | nil =>
        rw [List.length_nil] at hbudget
        omega
      | cons b budget =>
        rw [List.length_cons] at hbudget
        rw [hlink]
        exact hloop budget (by omega)
    · have hstop : isOperator s.current.kind = false := by simpa using hk
      exact ⟨left, s, hstop, fun budget _ => chainLinks_stays hstop operand budget room left⟩

end Chain

theorem closerOffset_stops (opener closer : Kind) (depth : Nat) (tokens : List Token) :
    ∀ t ∈ (tokens.drop (closerOffset opener closer depth tokens)).head?, t.kind = closer := by
  fun_induction closerOffset opener closer depth tokens with
  | case1 => simp
  | case2 t tokens h => simp [h]
  | case3 _ _ _ _ ih | case4 _ _ _ _ _ ih | case5 _ _ _ _ _ ih => simpa using ih

/-- What was passed over ends before the closer or with the tokens. -/
theorem skipToCloser_stops (opener closer : Kind) (s : State) :
    (outcome (skipToCloser opener closer) s).2.current.kind = closer ∨
      (outcome (skipToCloser opener closer) s).2.rest = [] := by
  have hstops := closerOffset_stops opener closer 0 s.rest
  have hrest : (outcome (skipToCloser opener closer) s).2.rest =
      s.rest.drop (closerOffset opener closer 0 s.rest) := rfl
  rw [← hrest] at hstops
  cases hahead : (outcome (skipToCloser opener closer) s).2.rest with
  | nil => exact .inr rfl
  | cons t rest =>
    rw [State.current, hahead]
    exact .inl (hstops t (by rw [hahead]; rfl))

theorem resume_stops (scope : Scope) (s : State) :
    scope.continues (outcome (resume scope) s).2.current.kind = true ∨
      (outcome (resume scope) s).2.rest = [] := by
  by_cases hk : scope.continues s.current.kind = true
  · rw [outcome_resume, if_pos hk]
    exact .inl hk
  · let passed (t : Token) : Bool := !scope.continues t.kind
    have hrest : (outcome (resume scope) s).2.rest = s.rest.dropWhile passed := by
      have hdrop : (s.rest.takeWhile passed ++ s.rest.dropWhile passed).drop
          (s.rest.takeWhile passed).length = s.rest.dropWhile passed := List.drop_left
      rw [List.takeWhile_append_dropWhile] at hdrop
      rwa [outcome_resume, if_neg hk, rest_skip, rest_complain]
    cases hahead : (outcome (resume scope) s).2.rest with
    | nil => exact .inr rfl
    | cons t rest =>
      have ht := List.head?_dropWhile_not passed s.rest
      rw [← hrest, hahead] at ht
      rw [State.current, hahead]
      exact .inl (by simpa [passed] using ht)

theorem Turns.keeps {more : Kind → Bool} {item : Parser α} {P : State → Prop}
    (hitem : ∀ s, P (outcome item s).2) {s t : State} {as : List α} (h : Turns more item s as t)
    (hs : P s) : P t := by
  induction h with
  | done s => exact hs
  | turn _ _ ih => exact ih (hitem _)

/-- A sequence ends before its closer or with the tokens. -/
theorem sequence_ends (scope : Scope) {p : Parser Statement} (hp : Advances anyKind p) {s : State}
    (hs : s.eof.kind = .eof) :
    (outcome (sequence scope p) s).2.current.kind = scope.closer ∨
      (outcome (sequence scope p) s).2.rest = [] := by
  let begun := (outcome (resume scope) s).2
  have hbegun : begun.eof.kind = .eof := (resume_forward scope s).eof ▸ hs
  have hends : Ends Kind.startsStatement (item scope p) begun :=
    collect_ends ((item_advances scope hp).anywhere _) rfl hbegun
  obtain ⟨as, t, hturns, hend, -, hloop⟩ := hends
  have houtcome : outcome (sequence scope p) s = (as, t) := hloop begun.rest [] le_rfl
  rw [houtcome]
  have hkeeps : scope.continues t.current.kind = true ∨ t.rest = [] :=
    hturns.keeps (P := fun s => scope.continues s.current.kind = true ∨ s.rest = [])
      (fun s => outcome_item scope p s ▸ resume_stops scope (outcome p s).2) (resume_stops scope s)
  refine hkeeps.imp_left fun hcontinues => ?_
  rw [Scope.continues, hend, Bool.false_or, decide_eq_true_eq] at hcontinues
  exact hcontinues

theorem statements_ends (levels : Nat) (scope : Scope) {s : State} (hs : s.eof.kind = .eof) :
    (outcome (statements levels scope) s).2.current.kind = scope.closer ∨
      (outcome (statements levels scope) s).2.rest = [] := by
  cases levels with
  | zero => exact skipToCloser_stops scope.opener scope.closer (outcome complainTooDeep s).2
  | succ levels =>
    exact sequence_ends scope (statement_advances (statements_forward levels) levels)
      (s := s.afterMarking .entered) hs

end LogoServer.Parser
