import LogoServer.Proofs.Parser.Statement
import LogoServer.Proofs.Tree.Relocated
import Mathlib.Tactic

/-! Places decide nothing: a parse of tokens whose places are moved takes the same course, and its
tree and its errors are those of the other parse with their places moved. -/
namespace LogoServer.Parser

variable {α β : Type} {move : Position → Position} {earlier : List SyntaxError}

/-- The second state is the first one with its places moved, behind errors made earlier. -/
structure Moved (move : Position → Position) (earlier : List SyntaxError) (s w : State) : Prop where
  limit : w.limit = s.limit
  rest : w.rest = s.rest.map (Token.relocate move)
  eof : w.eof = s.eof.relocate move
  errors : w.errors = earlier ++ s.errors.map (SyntaxError.relocate move)
  recovering : w.recovering = s.recovering
  tooDeep : w.tooDeep = s.tooDeep

namespace Moved

variable {s w : State} (h : Moved move earlier s w)
include h

theorem current : w.current = s.current.relocate move := by
  unfold State.current
  rw [h.rest, h.eof]
  cases s.rest <;> rfl

theorem lexeme : w.current.toLexeme = s.current.toLexeme := by
  rw [h.current, Token.toLexeme_relocate]

theorem kind : w.current.kind = s.current.kind :=
  congrArg Lexeme.kind h.lexeme

theorem followingKind : w.followingKind = s.followingKind := by
  unfold State.followingKind
  rw [h.rest]
  rcases s.rest with _ | ⟨t, _ | ⟨u, rest⟩⟩ <;> rfl

theorem mark (note : Note) (herror : note.error? = none) :
    Moved move earlier (s.afterMarking note) (w.afterMarking note) where
  limit := h.limit
  rest := h.rest
  eof := h.eof
  errors := by rw [State.errors_afterMarking _ herror, State.errors_afterMarking _ herror, h.errors]
  recovering := h.recovering
  tooDeep := h.tooDeep

theorem complaint (complaint : Complaint) :
    Moved move earlier (s.afterComplaint complaint) (w.afterComplaint complaint) where
  limit := h.limit
  rest := h.rest
  eof := h.eof
  errors := by
    rw [State.errors_afterComplaint, State.errors_afterComplaint, h.errors, h.current,
      List.map_append, List.append_assoc]
    rfl
  recovering := rfl
  tooDeep := h.tooDeep

end Moved

/-- From a state with its places moved the second parser builds what the first one builds, with the
places moved as well. -/
def Moves (move : Position → Position) (earlier : List SyntaxError) (f : α → α)
    (p q : Parser α) : Prop :=
  ∀ s w : State, Moved move earlier s w →
    (outcome q w).1 = f (outcome p s).1 ∧ Moved move earlier (outcome p s).2 (outcome q w).2

namespace Moves

variable {f : α → α} {p q : Parser α}

theorem pure {a b : α} (h : b = f a) : Moves move earlier f (Pure.pure a) (Pure.pure b) :=
  fun _ _ hmoved => ⟨h, hmoved⟩

theorem bind {f' : β → β} {k l : α → Parser β} (hp : Moves move earlier f p q)
    (hk : ∀ a, Moves move earlier f' (k a) (l (f a))) :
    Moves move earlier f' (p >>= k) (q >>= l) := by
  intro s w hmoved
  obtain ⟨hbuilt, hmoved'⟩ := hp s w hmoved
  rw [outcome_bind, outcome_bind, hbuilt]
  exact hk _ _ _ hmoved'

theorem map {f' : β → β} {g h : α → β} (hp : Moves move earlier f p q)
    (hgh : ∀ a, h (f a) = f' (g a)) :
    Moves move earlier f' (do return g (← p)) (do return h (← q)) :=
  hp.bind fun a => .pure (hgh a)

theorem ite {c : Prop} [Decidable c] {p' q' : Parser α} (hp : Moves move earlier f p q)
    (hq : Moves move earlier f p' q') :
    Moves move earlier f (if c then p else p') (if c then q else q') := by
  split_ifs
  · exact hp
  · exact hq

theorem get_bind {k l : State → Parser α}
    (h : ∀ s w, Moved move earlier s w → Moves move earlier f (k s) (l w)) :
    Moves move earlier f (get >>= k) (get >>= l) :=
  fun s w hmoved => h s w hmoved s w hmoved

theorem currentKind_bind {k l : Kind → Parser α}
    (h : ∀ kind, Moves move earlier f (k kind) (l kind)) :
    Moves move earlier f (currentKind >>= k) (currentKind >>= l) := by
  intro s w hmoved
  rw [outcome_bind, outcome_bind, outcome_currentKind, outcome_currentKind, hmoved.kind]
  exact h _ s w hmoved

end Moves

/-! ### Single tokens -/

theorem take_moves : Moves move earlier (Token.relocate move) take take := by
  intro s w h
  refine ⟨h.current, h.limit, ?_, h.eof, ?_, rfl, h.tooDeep⟩
  · change w.rest.tail = s.rest.tail.map _
    rw [h.rest, List.map_tail]
  · change (w.afterTaking w.current w.rest.tail).errors =
      earlier ++ (s.afterTaking s.current s.rest.tail).errors.map _
    rw [State.errors_afterTaking, State.errors_afterTaking, h.errors]

theorem takeIf_moves (kind : Kind) :
    Moves move earlier (Option.map (Token.relocate move)) (takeIf kind) (takeIf kind) :=
  .currentKind_bind fun _ => .ite (take_moves.map fun _ => rfl) (.pure rfl)

theorem skip_moves (n : Nat) : Moves move earlier id (skip n) (skip n) := by
  intro s w h
  refine ⟨rfl, h.limit, ?_, h.eof, ?_, h.recovering, h.tooDeep⟩
  · change w.rest.drop n = (s.rest.drop n).map _
    rw [h.rest, List.map_drop]
  · rw [errors_skip, errors_skip, h.errors]

theorem nested_moves {f : α → α} {p q : Parser α} (hp : Moves move earlier f p q) :
    Moves move earlier f (nested p) (nested q) := by
  intro s w h
  obtain ⟨hbuilt, hmoved⟩ := hp _ _ (h.mark .entered rfl)
  exact ⟨hbuilt, hmoved.mark .left rfl⟩

theorem complain_moves (complaint : Complaint) :
    Moves move earlier id (complain complaint) (complain complaint) := by
  intro s w h
  refine ⟨rfl, ?_⟩
  change Moved move earlier (if s.recovering then s else s.afterComplaint complaint)
    (if w.recovering then w else w.afterComplaint complaint)
  rw [h.recovering]
  split_ifs
  · exact h
  · exact h.complaint complaint

theorem complainTooDeep_moves :
    Moves move earlier id complainTooDeep complainTooDeep := by
  intro s w h
  refine ⟨rfl, ?_⟩
  change Moved move earlier
    { (if s.tooDeep then s else s.note (.tooDeep s.current.toLexeme s.limit)) with
      recovering := true, tooDeep := true }
    { (if w.tooDeep then w else w.note (.tooDeep w.current.toLexeme w.limit)) with
      recovering := true, tooDeep := true }
  rw [h.tooDeep, h.lexeme, h.limit]
  split_ifs
  · exact ⟨h.limit, h.rest, h.eof, h.errors, rfl, rfl⟩
  · have hnoted := h.complaint (.tooDeep s.current.toLexeme s.limit)
    exact ⟨h.limit, h.rest, h.eof, hnoted.errors, rfl, rfl⟩

theorem expect_moves (kind : Kind) :
    Moves move earlier (Option.map (Token.relocate move)) (expect kind) (expect kind) := by
  refine .get_bind fun s w h => ?_
  rw [h.lexeme, h.followingKind]
  refine .ite (take_moves.map fun _ => rfl) (.ite ?_ ?_)
  · exact (complain_moves _).bind fun _ => (skip_moves 1).bind fun _ => take_moves.map fun _ => rfl
  · exact (complain_moves _).bind fun _ => .pure rfl

/-! ### Ways past what cannot be parsed -/

theorem closerOffset_map (opener closer : Kind) (depth : Nat) (ts : List Token) :
    closerOffset opener closer depth (ts.map (Token.relocate move)) =
      closerOffset opener closer depth ts := by
  fun_induction closerOffset opener closer depth ts <;>
    simp_all [closerOffset, Token.relocate]

theorem skipToCloser_moves (opener closer : Kind) :
    Moves move earlier id (skipToCloser opener closer) (skipToCloser opener closer) := by
  refine .get_bind fun s w h => ?_
  rw [h.rest, closerOffset_map]
  exact skip_moves _

theorem skipConstruct_moves : Moves move earlier id skipConstruct skipConstruct := by
  refine .currentKind_bind fun opener => (skip_moves 1).bind fun _ => ?_
  cases opener.closer? with
  | none => exact .pure rfl
  | some closer =>
    exact (skipToCloser_moves opener closer).bind fun _ =>
      .currentKind_bind fun _ => .ite (skip_moves 1) (.pure rfl)

/-! ### Repetition -/

section Loops

variable {f : α → α} {item : Parser α} (hitem : Moves move earlier f item item)
include hitem

theorem collect_moves (more : Kind → Bool) {budget budget' : List β}
    (hbudget : budget'.length = budget.length) (found : List α) :
    Moves move earlier (List.map f) (collect more item budget found)
      (collect more item budget' (found.map f)) := by
  induction budget generalizing budget' found with
  | nil =>
    obtain rfl : budget' = [] := List.length_eq_zero_iff.mp hbudget
    exact .pure List.map_reverse.symm
  | cons b budget ih =>
    obtain ⟨b', budget', rfl⟩ := List.exists_cons_of_length_eq_add_one hbudget
    refine .currentKind_bind fun kind => .ite ?_ (.pure List.map_reverse.symm)
    exact hitem.bind fun a => ih (Nat.succ.inj hbudget) (a :: found)

theorem atMost_moves (bound : Nat) (more : Kind → Bool) :
    Moves move earlier (List.map f) (atMost bound more item) (atMost bound more item) :=
  collect_moves hitem more rfl []

theorem many_moves (more : Kind → Bool) :
    Moves move earlier (List.map f) (many more item) (many more item) :=
  .get_bind fun _ _ h => collect_moves hitem more (by rw [h.rest, List.length_map]) []

theorem times_moves (n : Nat) :
    Moves move earlier (List.map f) (times item n) (times item n) := by
  induction n with
  | zero => exact .pure rfl
  | succ n ih => exact hitem.bind fun _ => ih.bind fun _ => .pure rfl

theorem inputs_moves (arity : Arity) :
    Moves move earlier (List.map f) (inputs arity item) (inputs arity item) :=
  (times_moves hitem _).bind fun _ => (atMost_moves hitem _ _).bind fun _ =>
    .pure List.map_append.symm

end Loops

/-! ### Literal lists -/

theorem datum_moves {inner : Parser Datum} (h : Moves move earlier (Datum.relocate move) inner inner) :
    Moves move earlier (Datum.relocate move) (datum inner) (datum inner) := by
  refine .currentKind_bind fun kind => ?_
  cases kind with
  | leftBracket => exact h
  | _ => exact take_moves.map fun _ => rfl

theorem bracketed_moves {inner : Parser Datum}
    (h : Moves move earlier (Datum.relocate move) inner inner) :
    Moves move earlier (List.map (Datum.relocate move)) (bracketed inner) (bracketed inner) :=
  take_moves.bind fun _ => (many_moves (datum_moves h) _).bind fun _ =>
    (expect_moves _).bind fun _ => .pure rfl

theorem datumTooDeep_moves :
    Moves move earlier (Datum.relocate move) datumTooDeep datumTooDeep := by
  refine complainTooDeep_moves.bind fun _ => .get_bind fun s w h => ?_
  rw [h.current]
  exact skipConstruct_moves.bind fun _ => .pure rfl

theorem dataList_moves (levels : Nat) :
    Moves move earlier (List.map (Datum.relocate move)) (dataList levels) (dataList levels) := by
  induction levels with
  | zero => exact bracketed_moves datumTooDeep_moves
  | succ levels ih =>
    refine bracketed_moves (nested_moves (ih.map fun items => ?_))
    rw [Datum.relocate, Datum.relocateAll_eq_map]

/-! ### Expressions -/

section Operand

variable {operand : Parser Expr} (h : Moves move earlier (Expr.relocate move) operand operand)
include h

theorem chainLinks_moves (isOperator : Kind → Bool) {budget budget' : List Token}
    (hbudget : budget'.length = budget.length) (room : Nat) (left : Expr) :
    Moves move earlier (Expr.relocate move) (chainLinks isOperator operand budget room left)
      (chainLinks isOperator operand budget' room (left.relocate move)) := by
  induction budget generalizing budget' room left with
  | nil =>
    obtain rfl : budget' = [] := List.length_eq_zero_iff.mp hbudget
    exact .pure rfl
  | cons b budget ih =>
    obtain ⟨b', budget', rfl⟩ := List.exists_cons_of_length_eq_add_one hbudget
    refine .currentKind_bind fun kind => .ite ?_ (.pure rfl)
    refine take_moves.bind fun operator => h.bind fun right => ?_
    cases room with
    | zero => exact complainTooDeep_moves.bind fun _ => ih (Nat.succ.inj hbudget) 0 left
    | succ room => exact ih (Nat.succ.inj hbudget) room (.binary left operator right)

theorem chain_moves (isOperator : Kind → Bool) (levels : Nat) :
    Moves move earlier (Expr.relocate move) (chain isOperator levels operand)
      (chain isOperator levels operand) :=
  h.bind fun first => .get_bind fun _ _ hmoved =>
    chainLinks_moves h isOperator (by rw [hmoved.rest, List.length_map]) levels first

theorem additiveOver_moves (levels : Nat) :
    Moves move earlier (Expr.relocate move) (additiveOver levels operand)
      (additiveOver levels operand) :=
  chain_moves (chain_moves h _ levels) _ levels

theorem exprOver_moves (levels : Nat) :
    Moves move earlier (Expr.relocate move) (exprOver levels operand) (exprOver levels operand) :=
  chain_moves (additiveOver_moves h levels) _ levels

theorem query_moves (arity : Arity) :
    Moves move earlier (Expr.relocate move) (query arity operand) (query arity operand) :=
  take_moves.bind fun keyword => (inputs_moves h arity).map fun inputs => by
    rw [Expr.relocate, Expr.relocateAll_eq_map]

theorem enclosed_moves :
    Moves move earlier (Expr.relocate move) (enclosed operand) (enclosed operand) := by
  have hgroup : Moves move earlier (Expr.relocate move) (do return .group (← operand))
      (do return .group (← operand)) := h.map fun _ => rfl
  refine .currentKind_bind fun kind => ?_
  cases kind with
  | keyword k =>
    refine .ite (take_moves.bind fun keyword => (many_moves h _).map fun inputs => ?_) hgroup
    rw [Expr.relocate, Expr.relocateAll_eq_map]
  | _ => exact hgroup

theorem parenthesized_moves :
    Moves move earlier (Expr.relocate move) (parenthesized operand) (parenthesized operand) :=
  take_moves.bind fun _ => (enclosed_moves h).bind fun _ => (expect_moves _).bind fun _ => .pure rfl

theorem missingExpr_moves :
    Moves move earlier (Expr.relocate move) (missingExpr operand) (missingExpr operand) := by
  refine .get_bind fun s w hmoved => ?_
  rw [hmoved.lexeme, hmoved.followingKind]
  refine .ite ?_ ?_
  · exact (complain_moves _).bind fun _ => (skip_moves 1).bind fun _ => h
  · exact (complain_moves _).bind fun _ => .pure rfl

theorem term_moves (levels : Nat) :
    Moves move earlier (Expr.relocate move) (term levels operand) (term levels operand) := by
  refine .currentKind_bind fun kind => ?_
  cases kind with
  | number | word | colonName => exact take_moves.map fun _ => rfl
  | leftBracket =>
    refine (dataList_moves levels).map fun items => ?_
    rw [Expr.relocate, Datum.relocateAll_eq_map]
  | leftParen => exact parenthesized_moves (exprOver_moves h levels)
  | keyword k =>
    dsimp only
    cases k.queryArity? with
    | none => exact missingExpr_moves h
    | some arity => exact query_moves (additiveOver_moves h levels) arity
  | _ => exact missingExpr_moves h

end Operand

theorem primaryTooDeep_moves :
    Moves move earlier (Expr.relocate move) primaryTooDeep primaryTooDeep := by
  refine complainTooDeep_moves.bind fun _ => .currentKind_bind fun kind => ?_
  have hend : Moves move earlier (Expr.relocate move) (pure .missing) (pure .missing) := .pure rfl
  cases kind.startsExpr with
  | true => exact skipConstruct_moves.bind fun _ => hend
  | false => exact hend

theorem primary_moves (levels : Nat) :
    Moves move earlier (Expr.relocate move) (primary levels) (primary levels) := by
  induction levels with
  | zero => exact primaryTooDeep_moves
  | succ levels ih => exact nested_moves (term_moves ih levels)

theorem expr_moves (levels : Nat) :
    Moves move earlier (Expr.relocate move) (expr levels) (expr levels) :=
  exprOver_moves (primary_moves levels) levels

/-! ### Statements -/

section Body

variable {body : Body}
  (h : ∀ scope, Moves move earlier (List.map (Statement.relocate move)) (body scope) (body scope))
include h

theorem block_moves :
    Moves move earlier (List.map (Statement.relocate move)) (block body) (block body) :=
  (expect_moves _).bind fun _ => (h .block).bind fun _ => (expect_moves _).bind fun _ => .pure rfl

theorem argument_moves (levels : Nat) (slot : Slot) :
    Moves move earlier (Argument.relocate move) (argument levels body slot)
      (argument levels body slot) := by
  cases slot with
  | expr => exact (expr_moves levels).map fun _ => by rw [Argument.relocate]
  | block =>
    refine (block_moves h).map fun statements => ?_
    rw [Argument.relocate, Statement.relocateAll_eq_map]

theorem arguments_moves (levels : Nat) (slots : List Slot) :
    Moves move earlier (List.map (Argument.relocate move)) (arguments levels body slots)
      (arguments levels body slots) := by
  induction slots with
  | nil => exact .pure rfl
  | cons slot slots ih =>
    exact (argument_moves h levels slot).bind fun _ => ih.bind fun _ => .pure rfl

theorem definition_moves (keyword : Token) (form : DefinitionForm) :
    Moves move earlier (Statement.relocate move) (definition body keyword form)
      (definition body (keyword.relocate move) form) := by
  rcases form with _ | _
  · refine (expect_moves _).bind fun _ => (many_moves take_moves _).bind fun _ =>
      (h .procedure).bind fun _ => (expect_moves _).map fun _ => ?_
    rw [Statement.relocate, Statement.relocateAll_eq_map]
  · refine (expect_moves _).bind fun _ => (expect_moves _).bind fun _ =>
      (expect_moves _).bind fun _ => (many_moves take_moves _).bind fun _ =>
      (expect_moves _).bind fun _ => (block_moves h).bind fun _ => (expect_moves _).bind fun _ =>
      (takeIf_moves _).map fun _ => ?_
    rw [Statement.relocate, Statement.relocateAll_eq_map]

omit h in
theorem binding_moves (levels : Nat) (keyword : Token) (form : BindingForm) :
    Moves move earlier (Statement.relocate move) (binding levels keyword form)
      (binding levels (keyword.relocate move) form) := by
  cases form with
  | name =>
    exact (expr_moves levels).bind fun _ => (expect_moves _).map fun _ => by
      rw [Statement.relocate]
  | make | localmake =>
    exact (expect_moves _).bind fun _ => (expr_moves levels).map fun _ => by
      rw [Statement.relocate]

theorem loop_moves (levels : Nat) (keyword : Token) (form : LoopForm) :
    Moves move earlier (Statement.relocate move) (loop levels body keyword form)
      (loop levels body (keyword.relocate move) form) := by
  refine (expect_moves _).bind fun _ => (expect_moves _).bind fun _ =>
    (inputs_moves (expr_moves levels) _).bind fun _ => (expect_moves _).bind fun _ =>
    (block_moves h).map fun _ => ?_
  rw [Statement.relocate, Expr.relocateAll_eq_map, Statement.relocateAll_eq_map]

theorem statementOf_moves (levels : Nat) (form : StatementForm) :
    Moves move earlier (Statement.relocate move) (statementOf levels body form)
      (statementOf levels body form) := by
  refine take_moves.bind fun first => ?_
  cases form with
  | command slots =>
    refine (arguments_moves h levels slots).map fun _ => ?_
    rw [Statement.relocate, Argument.relocateAll_eq_map]
  | setPosition =>
    exact (expect_moves _).bind fun _ => (expr_moves levels).map fun _ => by
      rw [Statement.relocate]
  | definition form => exact definition_moves h first form
  | binding form => exact binding_moves levels first form
  | loop form => exact loop_moves h levels first form
  | call =>
    refine (many_moves (expr_moves levels) _).map fun _ => ?_
    rw [Statement.relocate, Expr.relocateAll_eq_map]

theorem statement_moves (levels : Nat) :
    Moves move earlier (Statement.relocate move) (statement levels body)
      (statement levels body) :=
  .currentKind_bind fun _ => statementOf_moves h levels _

end Body

theorem resume_moves (scope : Scope) : Moves move earlier id (resume scope) (resume scope) := by
  refine .get_bind fun s w h => ?_
  have hlength : (w.rest.takeWhile fun t => !scope.continues t.kind).length =
      (s.rest.takeWhile fun t => !scope.continues t.kind).length := by
    rw [h.rest, List.takeWhile_map, List.length_map]
    rfl
  rw [h.lexeme, hlength]
  cases scope.continues s.current.kind with
  | true => exact .pure rfl
  | false => exact (complain_moves _).bind fun _ => skip_moves _

theorem statementsTooDeep_moves (scope : Scope) :
    Moves move earlier (List.map (Statement.relocate move)) (statementsTooDeep scope)
      (statementsTooDeep scope) :=
  complainTooDeep_moves.bind fun _ => (skipToCloser_moves _ _).bind fun _ => .pure rfl

theorem item_moves (scope : Scope) {p : Parser Statement}
    (hp : Moves move earlier (Statement.relocate move) p p) :
    Moves move earlier (Statement.relocate move) (item scope p) (item scope p) :=
  hp.bind fun _ => (resume_moves scope).bind fun _ => .pure rfl

theorem sequence_moves (scope : Scope) {p : Parser Statement}
    (hp : Moves move earlier (Statement.relocate move) p p) :
    Moves move earlier (List.map (Statement.relocate move)) (sequence scope p)
      (sequence scope p) :=
  (resume_moves scope).bind fun _ => many_moves (item_moves scope hp) _

/-- Moving the places of the tokens moves those of the tree and of the errors. -/
theorem statements_moves (levels : Nat) (scope : Scope) :
    Moves move earlier (List.map (Statement.relocate move)) (statements levels scope)
      (statements levels scope) := by
  induction levels generalizing scope with
  | zero => exact statementsTooDeep_moves scope
  | succ levels ih => exact nested_moves (sequence_moves scope (statement_moves ih levels))

end LogoServer.Parser
