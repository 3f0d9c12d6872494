import LogoServer.Proofs.Parser.Statement
import LogoServer.Proofs.Tree.Nesting
import Mathlib.Tactic

/-! How deep a parse goes. A parser that has a number of nesting levels left never goes further down
than these, comes back to the depth it was called at, and builds a tree that fits in them. -/
namespace LogoServer.Parser

open Grammar

variable {α β : Type}

/-- Number of levels that were entered and not left, read off a journal, newest note first. -/
def depth : List Note → Nat
  | [] => 0
  | .entered :: notes => depth notes + 1
  | .left :: notes => depth notes - 1
  | _ :: notes => depth notes

/-- The note is about a token or a complaint. -/
def Note.isPlain : Note → Bool
  | .entered | .left => false
  | _ => true

theorem depth_append {ns : List Note} (hplain : ∀ n ∈ ns, n.isPlain = true) (notes : List Note) :
    depth (ns ++ notes) = depth notes := by
  induction ns with
  | nil => rfl
  | cons n ns ih =>
    have hn := hplain n List.mem_cons_self
    have htail := ih fun m hm => hplain m (List.mem_cons_of_mem n hm)
    cases n with
    | entered | left => cases hn
    | taken | skipped | complained => exact htail

/-- The parse goes on from the first state to the second one, no more than so many levels further
down, and is back at the depth where it started. -/
structure Dive (levels : Nat) (s t : State) : Prop where
  grows : s.journal <:+ t.journal
  returns : depth t.journal = depth s.journal
  bounded : ∀ notes, s.journal <:+ notes → notes <:+ t.journal →
    depth notes ≤ depth s.journal + levels

namespace Dive

variable {levels : Nat} {s t u : State}

theorem of_plain (ns : List Note) (hplain : ∀ n ∈ ns, n.isPlain = true)
    (h : t.journal = ns ++ s.journal) : Dive levels s t where
  grows := ⟨ns, h.symm⟩
  returns := by rw [h, depth_append hplain]
  bounded := by
    rintro _ ⟨ms, rfl⟩ hms
    rw [h, List.suffix_append_inj_of_length_eq rfl] at hms
    obtain ⟨hms, -⟩ := hms
    rw [depth_append fun n hn => hplain n (hms.subset hn)]
    exact Nat.le_add_right _ _

theorem refl (levels : Nat) (s : State) : Dive levels s s :=
  of_plain [] (by simp) rfl

theorem trans (h : Dive levels s t) (h' : Dive levels t u) : Dive levels s u where
  grows := h.grows.trans h'.grows
  returns := h'.returns.trans h.returns
  bounded notes hs hu := by
    rcases List.suffix_or_suffix_of_suffix hu h'.grows with ht | ht
    · exact h.bounded notes hs ht
    · rw [← h.returns]
      exact h'.bounded notes ht hu

/-- One level is entered before and left behind. -/
theorem nested (h : Dive levels (s.afterMarking .entered) t) :
    Dive (levels + 1) s (t.afterMarking .left) where
  grows := (List.suffix_cons _ _).trans (h.grows.trans (List.suffix_cons _ _))
  returns := by
    change depth t.journal - 1 = depth s.journal
    rw [h.returns]
    rfl
  bounded notes hs ht := by
    have hentered : depth (s.afterMarking .entered).journal = depth s.journal + 1 := rfl
    rcases List.suffix_cons_iff.mp ht with rfl | ht
    · change depth t.journal - 1 ≤ _
      rw [h.returns, hentered]
      omega
    · rcases List.suffix_or_suffix_of_suffix ht h.grows with hle | hge
      · rcases List.suffix_cons_iff.mp hle with rfl | hle
        · change depth s.journal + 1 ≤ _
          omega
        · rw [hle.eq_of_length_le hs.length_le]
          exact Nat.le_add_right _ _
      · have hbound := h.bounded notes hge ht
        rw [hentered] at hbound
        omega

end Dive

/-- From every state the parser dives no further than so many levels, and what it builds satisfies
the condition. -/
def Nests (levels : Nat) (P : α → Prop) (p : Parser α) : Prop :=
  ∀ s, Dive levels s (outcome p s).2 ∧ P (outcome p s).1

/-- A condition that nothing fails. -/
def anything (_ : α) : Prop :=
  True

namespace Nests

variable {levels : Nat} {P : α → Prop} {Q : β → Prop} {p : Parser α}

theorem dive (h : Nests levels P p) (s : State) : Dive levels s (outcome p s).2 :=
  (h s).1

theorem imp {P' : α → Prop} (h : Nests levels P p) (himp : ∀ a, P a → P' a) : Nests levels P' p :=
  fun s => ⟨(h s).1, himp _ (h s).2⟩

theorem pure {a : α} (h : P a) : Nests levels P (Pure.pure a) :=
  fun s => ⟨.refl levels s, h⟩

theorem bind {f : α → Parser β} (hp : Nests levels P p) (hf : ∀ a, P a → Nests levels Q (f a)) :
    Nests levels Q (p >>= f) := by
  intro s
  obtain ⟨hdive, ha⟩ := hp s
  obtain ⟨hdive', hb⟩ := hf _ ha (outcome p s).2
  exact ⟨hdive.trans hdive', hb⟩

theorem map {f : α → β} (hp : Nests levels P p) (hf : ∀ a, P a → Q (f a)) :
    Nests levels Q (do return f (← p)) :=
  hp.bind fun a ha => .pure (hf a ha)

theorem currentKind_bind {f : Kind → Parser α} (h : ∀ k, Nests levels P (f k)) :
    Nests levels P (currentKind >>= f) :=
  fun s => h s.current.kind s

theorem get_bind {f : State → Parser α} (h : ∀ s, Nests levels P (f s)) :
    Nests levels P (get >>= f) :=
  fun s => h s s

theorem ite {c : Prop} [Decidable c] {q : Parser α} (hp : Nests levels P p)
    (hq : Nests levels P q) : Nests levels P (if c then p else q) := by
  split_ifs
  · exact hp
  · exact hq

theorem nested (h : Nests levels P p) : Nests (levels + 1) P (nested p) :=
  fun s => ⟨(h (s.afterMarking .entered)).1.nested, (h (s.afterMarking .entered)).2⟩

end Nests

variable {levels : Nat}

/-! ### Single tokens and recovery -/

theorem take_nests : Nests levels anything take :=
  fun s => ⟨.of_plain [.taken s.current] (by simp [Note.isPlain]) rfl, trivial⟩

theorem takeIf_nests (kind : Kind) : Nests levels anything (takeIf kind) :=
  .currentKind_bind fun _ => .ite (take_nests.map fun _ _ => trivial) (.pure trivial)

theorem skip_nests (n : Nat) : Nests levels anything (skip n) := by
  refine fun s => ⟨.of_plain ((s.rest.take n).reverse.map .skipped) (fun note hnote => ?_) rfl,
    trivial⟩
  obtain ⟨t, -, rfl⟩ := List.mem_map.mp hnote
  rfl

theorem complain_nests (complaint : Complaint) : Nests levels anything (complain complaint) := by
  refine fun s => ⟨?_, trivial⟩
  change Dive levels s (if s.recovering then s else s.afterComplaint complaint)
  split_ifs
  · exact .refl levels s
  · exact .of_plain [.complained (.atToken complaint s.current)] (by simp [Note.isPlain]) rfl

theorem complainTooDeep_nests : Nests levels anything complainTooDeep := by
  refine fun s => ⟨?_, trivial⟩
  have hjournal : (outcome complainTooDeep s).2.journal =
      (if s.tooDeep then s else s.note s.tooDeepComplaint).journal := rfl
  split_ifs at hjournal
  · exact .of_plain [] (by simp) hjournal
  · exact .of_plain [.complained (.atToken s.tooDeepComplaint s.current)] (by simp [Note.isPlain])
      hjournal

theorem expect_nests (kind : Kind) : Nests levels anything (expect kind) := by
  refine .get_bind fun s => .ite (take_nests.map fun _ _ => trivial) (.ite ?_ ?_)
  · exact (complain_nests _).bind fun _ _ => (skip_nests 1).bind fun _ _ =>
      take_nests.map fun _ _ => trivial
  · exact (complain_nests _).bind fun _ _ => .pure trivial

theorem skipToCloser_nests (opener closer : Kind) :
    Nests levels anything (skipToCloser opener closer) :=
  .get_bind fun _ => skip_nests _

theorem skipConstruct_nests : Nests levels anything skipConstruct := by
  refine .currentKind_bind fun opener => (skip_nests 1).bind fun _ _ => ?_
  cases opener.closer? with
  | none => exact .pure trivial
  | some closer =>
    exact (skipToCloser_nests opener closer).bind fun _ _ =>
      .currentKind_bind fun _ => .ite (skip_nests 1) (.pure trivial)

/-! ### Repetition -/

section Repetition

variable {P : α → Prop} {item : Parser α} (hitem : Nests levels P item)
include hitem

theorem collect_nests (more : Kind → Bool) (budget : List β) (found : List α)
    (hfound : ∀ a ∈ found, P a) :
    Nests levels (fun as => ∀ a ∈ as, P a) (collect more item budget found) := by
  induction budget generalizing found with
  | nil => exact .pure (by simpa using hfound)
  | cons _ budget ih =>
    refine .currentKind_bind fun k => .ite (hitem.bind fun a ha => ?_) ?_
    · exact ih (a :: found) (List.forall_mem_cons.mpr ⟨ha, hfound⟩)
    · exact .pure (by simpa using hfound)

theorem many_nests (more : Kind → Bool) :
    Nests levels (fun as => ∀ a ∈ as, P a) (many more item) :=
  .get_bind fun _ => collect_nests hitem more _ [] (by simp)

theorem times_nests (n : Nat) : Nests levels (fun as => ∀ a ∈ as, P a) (times item n) := by
  induction n with
  | zero => exact .pure (by simp)
  | succ n ih =>
    exact hitem.bind fun a ha => ih.map fun as has => List.forall_mem_cons.mpr ⟨ha, has⟩

theorem inputs_nests (arity : Arity) :
    Nests levels (fun as => ∀ a ∈ as, P a) (inputs arity item) :=
  (times_nests hitem arity.least).bind fun _ has =>
    (collect_nests hitem Kind.startsExpr _ [] (by simp)).map fun _ hbs =>
      List.forall_mem_append.mpr ⟨has, hbs⟩

end Repetition

/-! ### Literal lists -/

theorem datum_nests {inner : Parser Datum} (hinner : Nests levels (Datum.Within levels) inner) :
    Nests levels (Datum.Within levels) (datum inner) := by
  refine .currentKind_bind fun k => ?_
  split
  · exact hinner
  · exact take_nests.map fun t _ => .number t
  · exact take_nests.map fun t _ => .word t
  · exact take_nests.map fun t _ => .atom t

theorem bracketed_nests {inner : Parser Datum}
    (hinner : Nests levels (Datum.Within levels) inner) :
    Nests levels (fun items => ∀ item ∈ items, item.Within levels) (bracketed inner) :=
  take_nests.bind fun _ _ => (many_nests (datum_nests hinner) _).bind fun _ hitems =>
    (expect_nests _).bind fun _ _ => .pure hitems

theorem datumTooDeep_nests : Nests levels (Datum.Within levels) datumTooDeep :=
  complainTooDeep_nests.bind fun _ _ => .get_bind fun s =>
    skipConstruct_nests.bind fun _ _ => .pure (.atom s.current)

theorem dataList_nests (levels : Nat) :
    Nests levels (fun items => ∀ item ∈ items, item.Within levels) (dataList levels) := by
  induction levels with
  | zero => exact bracketed_nests datumTooDeep_nests
  | succ levels ih =>
    have hlist : Nests levels (Datum.Within (levels + 1)) (do return .list (← dataList levels)) :=
      ih.map fun _ => .list
    exact bracketed_nests hlist.nested

/-! ### Expressions -/

/-- A token is matched where its kind passes a test. -/
theorem takeWhere_nests {P : α → Prop} {test : Kind → Bool} {f : Token → Parser α} {p : Parser α}
    (hf : ∀ t, test t.kind = true → Nests levels P (f t)) (hp : Nests levels P p) :
    Nests levels P (do if test (← currentKind) then f (← take) else p) := by
  intro s
  by_cases htest : test s.current.kind = true
  · have heq : outcome (do if test (← currentKind) then f (← take) else p) s =
        outcome (f s.current) (outcome take s).2 := by
      change outcome (if test s.current.kind then _ else _) s = _
      rw [if_pos htest]
      rfl
    rw [heq]
    obtain ⟨hdive, ha⟩ := hf _ htest (outcome take s).2
    exact ⟨(take_nests.dive s).trans hdive, ha⟩
  · have heq : outcome (do if test (← currentKind) then f (← take) else p) s = outcome p s := by
      change outcome (if test s.current.kind then _ else _) s = _
      rw [if_neg htest]
    rw [heq]
    exact hp s

/-- A link is added while there is room, so the links and the room make up the levels. -/
theorem chainLinks_nests {tier : Tier} {operand : Parser Expr}
    (hoperand : Nests levels (Expr.Within levels tier.tighter) operand) (budget : List Token)
    {room : Nat} {left : Expr} (hleft : left.Within levels tier)
    (hroom : left.links tier + room = levels) :
    Nests levels (Expr.Within levels tier) (chainLinks tier.joins operand budget room left) := by
  induction budget generalizing room left with
  | nil => exact .pure hleft
  | cons _ budget ih =>
    refine takeWhere_nests (fun operator hjoins => hoperand.bind fun right hright => ?_)
      (.pure hleft)
    cases room with
    | zero => exact complainTooDeep_nests.bind fun _ _ => ih hleft hroom
    | succ room =>
      refine ih (.link hleft hjoins (by omega) hright) ?_
      rw [Expr.Within.links_binary hjoins]
      omega

theorem chain_nests (tier : Tier) (htier : tier ≠ .factor) {operand : Parser Expr}
    (hoperand : Nests levels (Expr.Within levels tier.tighter) operand) :
    Nests levels (Expr.Within levels tier) (chain tier.joins levels operand) := by
  refine hoperand.bind fun first hfirst => .get_bind fun s => ?_
  have hrank : tier.tighter.rank < tier.rank := by
    cases tier with
    | factor => exact absurd rfl htier
    | product | sum | comparison => decide
  refine chainLinks_nests hoperand s.rest (.single hfirst) ?_
  rw [hfirst.links_eq_zero (.inr hrank), Nat.zero_add]

section Operand

variable {operand : Parser Expr} (hoperand : Nests levels (Expr.Within levels .factor) operand)
include hoperand

theorem product_nests :
    Nests levels (Expr.Within levels .product) (chain Kind.isMultiplicative levels operand) :=
  chain_nests .product (by decide) hoperand

theorem additiveOver_nests :
    Nests levels (Expr.Within levels .sum) (additiveOver levels operand) :=
  chain_nests .sum (by decide) (product_nests hoperand)

theorem exprOver_nests :
    Nests levels (Expr.Within levels .comparison) (exprOver levels operand) :=
  chain_nests .comparison (by decide) (additiveOver_nests hoperand)

theorem missingExpr_nests : Nests levels (Expr.Within levels .factor) (missingExpr operand) := by
  refine .get_bind fun s => .ite ?_ ?_
  · exact (complain_nests _).bind fun _ _ => (skip_nests 1).bind fun _ _ => hoperand
  · exact (complain_nests _).bind fun _ _ => .pure .missing

end Operand

theorem query_nests (arity : Arity) {input : Parser Expr}
    (hinput : Nests levels (Expr.Within levels .sum) input) :
    Nests levels (Expr.Within (levels + 1) .factor) (query arity input) :=
  take_nests.bind fun _ _ => (inputs_nests hinput arity).map fun _ hinputs =>
    .query fun e he => .single (hinputs e he)

section Inner

variable {inner : Parser Expr} (hinner : Nests levels (Expr.Within levels .comparison) inner)
include hinner

theorem enclosed_nests : Nests levels (Expr.Within (levels + 1) .factor) (enclosed inner) := by
  have hgroup : Nests levels (Expr.Within (levels + 1) .factor) (do return .group (← inner)) :=
    hinner.map fun _ => .group
  refine .currentKind_bind fun kind => ?_
  split
  · refine .ite (take_nests.bind fun _ _ => ?_) hgroup
    exact (many_nests hinner _).map fun _ => .query
  · exact hgroup

theorem parenthesized_nests :
    Nests levels (Expr.Within (levels + 1) .factor) (parenthesized inner) :=
  take_nests.bind fun _ _ => (enclosed_nests hinner).bind fun _ he =>
    (expect_nests _).bind fun _ _ => .pure he

end Inner

theorem term_nests {operand : Parser Expr}
    (hoperand : Nests levels (Expr.Within levels .factor) operand) :
    Nests levels (Expr.Within (levels + 1) .factor) (term levels operand) := by
  have hmissing : Nests levels (Expr.Within (levels + 1) .factor) (missingExpr operand) :=
    (missingExpr_nests hoperand).imp fun _ => Expr.Within.succ
  refine .currentKind_bind fun kind => ?_
  split
  · exact take_nests.map fun t _ => .number t
  · exact take_nests.map fun t _ => .word t
  · exact take_nests.map fun t _ => .reference t
  · exact (dataList_nests levels).map fun _ => .list
  · exact parenthesized_nests (exprOver_nests hoperand)
  · rename_i k
    cases k.queryArity? with
    | none => exact hmissing
    | some arity => exact query_nests arity (additiveOver_nests hoperand)
  · exact hmissing

theorem primaryTooDeep_nests : Nests levels (Expr.Within levels .factor) primaryTooDeep :=
  complainTooDeep_nests.bind fun _ _ => .currentKind_bind fun _ =>
    .ite (skipConstruct_nests.bind fun _ _ => .pure .missing) (.pure .missing)

/-- An operand takes one of the levels that are left. -/
theorem primary_nests (levels : Nat) :
    Nests levels (Expr.Within levels .factor) (primary levels) := by
  induction levels with
  | zero => exact primaryTooDeep_nests
  | succ levels ih => exact (term_nests ih).nested

theorem expr_nests (levels : Nat) : Nests levels (Expr.Within levels .comparison) (expr levels) :=
  exprOver_nests (primary_nests levels)

/-! ### Statements -/

section Body

variable {body : Body} (hbody : ∀ scope, Nests levels (Statement.AllWithin levels) (body scope))
include hbody

theorem block_nests : Nests levels (Statement.AllWithin levels) (block body) :=
  (expect_nests _).bind fun _ _ => (hbody .block).bind fun _ hstatements =>
    (expect_nests _).bind fun _ _ => .pure hstatements

theorem argument_nests (slot : Slot) :
    Nests levels (Argument.Within levels) (argument levels body slot) := by
  cases slot with
  | expr => exact (expr_nests levels).map fun _ => .expr
  | block => exact (block_nests hbody).map fun _ => .block

theorem arguments_nests (slots : List Slot) :
    Nests levels (fun as => ∀ a ∈ as, Argument.Within levels a) (arguments levels body slots) := by
  induction slots with
  | nil => exact .pure (by simp)
  | cons slot slots ih =>
    exact (argument_nests hbody slot).bind fun a ha =>
      ih.map fun as has => List.forall_mem_cons.mpr ⟨ha, has⟩

theorem definition_nests (keyword : Token) (form : DefinitionForm) :
    Nests levels (Statement.Within levels) (definition body keyword form) := by
  match form with
  | .to =>
    exact (expect_nests _).bind fun _ _ => (many_nests take_nests _).bind fun _ _ =>
      (hbody .procedure).bind fun _ hstatements => (expect_nests _).bind fun _ _ =>
      .pure (.definition hstatements)
  | .define =>
    exact (expect_nests _).bind fun _ _ => (expect_nests _).bind fun _ _ =>
      (expect_nests _).bind fun _ _ => (many_nests take_nests _).bind fun _ _ =>
      (expect_nests _).bind fun _ _ => (block_nests hbody).bind fun _ hstatements =>
      (expect_nests _).bind fun _ _ => (takeIf_nests _).bind fun _ _ =>
      .pure (.definition hstatements)

omit hbody in
theorem binding_nests (keyword : Token) (form : BindingForm) :
    Nests levels (Statement.Within levels) (binding levels keyword form) := by
  cases form with
  | name =>
    exact (expr_nests levels).bind fun _ hvalue => (expect_nests _).bind fun _ _ =>
      .pure (.binding hvalue)
  | make | localmake =>
    exact (expect_nests _).bind fun _ _ => (expr_nests levels).bind fun _ hvalue =>
      .pure (.binding hvalue)

theorem loop_nests (keyword : Token) (form : LoopForm) :
    Nests levels (Statement.Within levels) (loop levels body keyword form) :=
  (expect_nests _).bind fun _ _ => (expect_nests _).bind fun _ _ =>
    (inputs_nests (expr_nests levels) _).bind fun _ hbounds => (expect_nests _).bind fun _ _ =>
    (block_nests hbody).bind fun _ hstatements => .pure (.loop hbounds hstatements)

theorem statementOf_nests (form : StatementForm) :
    Nests levels (Statement.Within levels) (statementOf levels body form) := by
  refine take_nests.bind fun first _ => ?_
  cases form with
  | command slots => exact (arguments_nests hbody slots).map fun _ => .command
  | setPosition =>
    exact (expect_nests _).bind fun _ _ => (expr_nests levels).map fun _ => .setPosition
  | definition form => exact definition_nests hbody first form
  | binding form => exact binding_nests first form
  | loop form => exact loop_nests hbody first form
  | call => exact (many_nests (expr_nests levels) _).map fun _ => .call

theorem statement_nests : Nests levels (Statement.Within levels) (statement levels body) :=
  .currentKind_bind fun _ => statementOf_nests hbody _

end Body

theorem resume_nests (scope : Scope) : Nests levels anything (resume scope) :=
  .get_bind fun _ => .ite (.pure trivial) ((complain_nests _).bind fun _ _ => skip_nests _)

theorem sequence_nests (scope : Scope) {item : Parser Statement}
    (hitem : Nests levels (Statement.Within levels) item) :
    Nests levels (Statement.AllWithin (levels + 1)) (sequence scope item) := by
  refine (resume_nests scope).bind fun _ _ => ?_
  refine (many_nests (hitem.bind fun s hs => ?_) _).imp fun _ => .all
  exact (resume_nests scope).bind fun _ _ => .pure hs

theorem statementsTooDeep_nests (scope : Scope) :
    Nests levels (Statement.AllWithin 0) (statementsTooDeep scope) :=
  complainTooDeep_nests.bind fun _ _ => (skipToCloser_nests _ _).bind fun _ _ => .pure .nil

/-- A sequence takes one of the levels that are left. -/
theorem statements_nests (levels : Nat) (scope : Scope) :
    Nests levels (Statement.AllWithin levels) (statements levels scope) := by
  induction levels generalizing scope with
  | zero => exact statementsTooDeep_nests scope
  | succ levels ih => exact (sequence_nests scope (statement_nests ih)).nested

end LogoServer.Parser
