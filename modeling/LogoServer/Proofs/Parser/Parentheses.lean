import LogoServer.Parsed.Basic
import LogoServer.Proofs.Parser.Frame
import LogoServer.Proofs.Parser.Statement
import Mathlib.Tactic

/-! What parentheses around an expression do to it. They make a group of it, unless a reporter
stands right behind the opening one: that reporter takes what follows for inputs of its own. -/
namespace LogoServer

/-- A reporter with its inputs. -/
def Expr.isQuery : Expr → Bool
  | .query .. => true
  | _ => false

/-- A reporter that takes any number of inputs behind an opening parenthesis. -/
def Kind.isReporter : Kind → Bool
  | .keyword k => k.isParenthesizedQuery
  | _ => false

theorem Grammar.Each.tokens_eq_nil {α : Type} {R : α → List Token → Prop} {ts : List Token}
    (h : Each R [] ts) : ts = [] := by
  cases h
  rfl

namespace Parser

open Grammar
open Parsed (runTokens)

variable {keyword eof : Token} {tokens : List Token} {levels : Nat} {x : Expr}

/-- A keyword and tokens behind it are one command with one expression, and nothing is complained
about. -/
structure Shows (limit : Nat) (keyword : Token) (tokens : List Token) (eof : Token) (x : Expr) :
    Prop where
  statements : (runTokens limit (keyword :: tokens) eof).1 = [.command keyword [.expr x]]
  errors : (runTokens limit (keyword :: tokens) eof).2.errors = []

/-- The state of a parse behind its first token. -/
def opened (limit : Nat) (keyword : Token) (tokens : List Token) (eof : Token) : State :=
  ((State.start limit (keyword :: tokens) eof).afterMarking .entered).afterTaking keyword tokens

/-- An expression is built from all tokens that were ahead, and nothing is complained about. -/
structure Complete (a : Expr × State) (x : Expr) : Prop where
  built : a.1 = x
  rest : a.2.rest = []
  errors : a.2.errors = []

theorem resume_stays {scope : Scope} {s : State} (h : scope.continues s.current.kind = true) :
    outcome (resume scope) s = ((), s) := by
  rw [outcome_resume, if_pos h]

theorem runTokens_show (hkeyword : keyword.kind = .keyword .show_) (levels : Nat)
    (tokens : List Token) (eof : Token) :
    runTokens (levels + 1) (keyword :: tokens) eof =
      let shown := outcome (expr levels) (opened (levels + 1) keyword tokens eof)
      let all := outcome (collect Kind.startsStatement
        (item .document (statement levels (statements levels))) tokens
        [.command keyword [.expr shown.1]]) (outcome (resume .document) shown.2).2
      (all.1, all.2.afterMarking .left) := by
  let s : State := (State.start (levels + 1) (keyword :: tokens) eof).afterMarking .entered
  have hkind : s.current.kind = .keyword .show_ := hkeyword
  have hresume : outcome (resume .document) s = ((), s) := resume_stays (by rw [hkind]; rfl)
  have hitem : outcome (item .document (statement levels (statements levels))) s =
      (.command keyword [.expr (outcome (expr levels) (opened (levels + 1) keyword tokens eof)).1],
        (outcome (resume .document)
          (outcome (expr levels) (opened (levels + 1) keyword tokens eof)).2).2) := by
    have hform : s.current.kind.statementForm?.getD .call = .command [.expr] := by
      rw [hkind]
      rfl
    change outcome (do
      let t ← statementOf levels (statements levels) (s.current.kind.statementForm?.getD .call)
      resume .document
      return t) s = _
    rw [hform]
    rfl
  have hall : outcome (sequence .document (statement levels (statements levels))) s =
      outcome (collect Kind.startsStatement (item .document (statement levels (statements levels)))
        (keyword :: tokens) []) s := by
    change outcome (many Kind.startsStatement
      (item .document (statement levels (statements levels)))) (outcome (resume .document) s).2 = _
    rw [hresume]
    rfl
  change outcome (nested (sequence .document (statement levels (statements levels)))) _ = _
  rw [outcome_nested, hall, outcome_collect_cons, if_pos (by rw [hkind]; rfl), hitem]

theorem sound_opened (heof : eof.kind = .eof) (limit : Nat) (keyword : Token)
    (tokens : List Token) : (opened limit keyword tokens eof).Sound :=
  Passage.sound (.mark rfl rfl (.take rfl (.stay _))) (State.sound_start heof)

section Command

variable (hkeyword : keyword.kind = .keyword .show_) (heof : eof.kind = .eof)
include hkeyword heof

/-- A command that is not complained about has an expression that is not, and nothing is passed
over behind it. -/
theorem errors_of_runTokens
    (h : (runTokens (levels + 1) (keyword :: tokens) eof).2.errors = []) :
    let t := (outcome (expr levels) (opened (levels + 1) keyword tokens eof)).2
    t.errors = [] ∧ outcome (resume .document) t = ((), t) := by
  intro t
  have hs := sound_opened heof (levels + 1) keyword tokens
  obtain ⟨_, hpassage⟩ := (expr_reads levels).passes _ hs trivial
  have ht : t.Sound := hpassage.sound hs
  obtain ⟨_, hresume⟩ := (resume_reads .document).passes t ht trivial
  rw [runTokens_show hkeyword] at h
  obtain ⟨_, hcollect⟩ := (collect_reads (item_reads (statement_reads (statements_reads levels)
    levels)) tokens _).passes _ (hresume.sound ht) trivial
  have hclean := hcollect.errors_eq_nil ((mark_passage .left rfl rfl _).errors_eq_nil h)
  refine ⟨hresume.errors_eq_nil hclean, ?_⟩
  rcases resume_cases .document t with ⟨hcontinues, _⟩ | hastray
  · exact resume_stays hcontinues
  · exact absurd hclean (hastray.errors_ne_nil ht)

/-- A command is made up of an expression that leaves nothing ahead. -/
theorem shows_iff (htokens : ∀ t ∈ tokens, t.kind ≠ .eof) :
    Shows (levels + 1) keyword tokens eof x ↔
      Complete (outcome (expr levels) (opened (levels + 1) keyword tokens eof)) x := by
  have hs := sound_opened heof (levels + 1) keyword tokens
  obtain ⟨notes, hpassage⟩ := (expr_reads levels).passes _ hs trivial
  have ht := hpassage.sound hs
  have hrun := runTokens_show hkeyword levels tokens eof
  dsimp only at hrun
  constructor
  · intro h
    obtain ⟨hclean, hresume⟩ := errors_of_runTokens hkeyword heof h.errors
    rw [hresume] at hrun
    obtain ⟨ms, hcollect, ⟨later, hbuilt, _, heach⟩, _⟩ := collect_reads (item_reads
      (statement_reads (statements_reads levels) levels)) tokens
      [.command keyword [.expr (outcome (expr levels) (opened (levels + 1) keyword tokens eof)).1]]
      _ ht trivial
    have hall : Passage (outcome (expr levels) (opened (levels + 1) keyword tokens eof)).2
        (ms ++ [.left]) (runTokens (levels + 1) (keyword :: tokens) eof).2 := by
      rw [hrun]
      exact hcollect.trans (mark_passage .left rfl rfl _)
    replace hbuilt := (congrArg Prod.fst hrun).trans hbuilt
    rw [h.statements] at hbuilt
    -- There is one command only, so nothing was matched behind its expression.
    simp only [List.reverse_singleton, List.singleton_append, List.cons.injEq,
      Statement.command.injEq, Argument.expr.injEq, true_and, and_true] at hbuilt
    obtain ⟨hx, rfl⟩ := hbuilt
    have hend : (runTokens (levels + 1) (keyword :: tokens) eof).2.rest = [] := by
      refine State.rest_eq_nil
        (statements_stops (levels + 1) .document (State.sound_start heof) h.errors)
        fun t ht => htokens t ?_
      change t ∈ (opened (levels + 1) keyword tokens eof).rest
      rw [hpassage.rest_eq, hall.rest_eq]
      exact List.mem_append_right _ (List.mem_append_right _ ht)
    refine ⟨hx.symm, ?_, hclean⟩
    rw [hall.rest_eq, hend, hall.token?_eq_takenOf ht h.errors, takenOf_append,
      heach.tokens_eq_nil]
    rfl
  · rintro ⟨rfl, hrest, hclean⟩
    have hk := State.kind_of_rest ht.eof_kind hrest
    rw [resume_stays (by rw [hk]; rfl)] at hrun
    rw [collect_of_turns (.done _) _ _ (Nat.zero_le _) fun _ => by rw [hk]; rfl] at hrun
    exact ⟨by rw [hrun]; rfl, by rw [hrun]; exact (State.errors_afterMarking _ rfl).trans hclean⟩

end Command

/-! ### A reporter without operators behind it -/

section Chain

variable {operand : Parser Expr}

theorem chainLinks_eq_or_binary (isOperator : Kind → Bool) (operand : Parser Expr)
    (budget : List Token) (room : Nat) (left : Expr) (s : State) :
    (outcome (chainLinks isOperator operand budget room left) s).1 = left ∨
      ∃ l operator r, (outcome (chainLinks isOperator operand budget room left) s).1 =
        .binary l operator r := by
  induction budget generalizing room left s with
  | nil => exact .inl rfl
  | cons b budget ih =>
    rw [outcome_chainLinks_cons]
    split_ifs
    · cases room with
      | zero => exact ih 0 left _
      | succ room =>
        rcases ih room (.binary left s.current (outcome operand (outcome take s).2).1)
          (outcome operand (outcome take s).2).2 with h | h
        · exact .inr ⟨_, _, _, h⟩
        · exact .inr h
    · exact .inl rfl

theorem chain_of_group {isOperator : Kind → Bool} {s : State} {y : Expr}
    (h : (outcome (chain isOperator levels operand) s).1 = .group y) :
    (outcome operand s).1 = .group y := by
  rw [outcome_chain] at h
  rcases chainLinks_eq_or_binary isOperator operand (outcome operand s).2.rest levels
    (outcome operand s).1 (outcome operand s).2 with hleft | ⟨_, _, _, hbinary⟩
  · exact hleft.symm.trans h
  · cases hbinary.symm.trans h

/-- A chain that comes to a reporter has no links. -/
theorem chain_of_isQuery (tier : Tier) (hreads : Reads anyKind operand (.phrase tier.tighter))
    {s : State} (hs : s.Sound)
    (hclean : (outcome (chain tier.joins levels operand) s).2.errors = [])
    (hquery : (outcome (chain tier.joins levels operand) s).1.isQuery = true) :
    outcome (chain tier.joins levels operand) s = outcome operand s := by
  obtain ⟨_, hpassage⟩ := hreads.passes s hs trivial
  have hs₁ := hpassage.sound hs
  cases hk : tier.joins (outcome operand s).2.current.kind with
  | false => exact chainLinks_stays hk operand _ levels _
  | true =>
    obtain ⟨rest, hrest⟩ :=
      State.exists_rest_of_kind_ne_eof hs₁.eof_kind (ne_eof_of_test (joins_eof tier) hk)
    rw [outcome_chain, hrest] at hclean hquery
    cases levels with
    | zero => exact absurd hclean (errors_chainLinks hreads hs₁ hk _ _ _)
    | succ levels =>
      rw [outcome_chainLinks_cons, if_pos hk] at hquery
      dsimp only at hquery
      rcases chainLinks_eq_or_binary tier.joins operand _ levels _ _ with h | ⟨_, _, _, h⟩
      · rw [h] at hquery
        cases hquery
      · rw [h] at hquery
        cases hquery

end Chain

theorem expr_of_isQuery {s : State} (hs : s.Sound)
    (hclean : (outcome (expr levels) s).2.errors = [])
    (hquery : (outcome (expr levels) s).1.isQuery = true) :
    outcome (expr levels) s = outcome (primary levels) s := by
  have hproduct := chain_reads .product (primary_reads levels) levels
  have hsum := additiveOver_reads (primary_reads levels) levels
  have hexpr : outcome (expr levels) s = outcome (additiveOver levels (primary levels)) s :=
    chain_of_isQuery .comparison hsum hs hclean hquery
  rw [hexpr] at hclean hquery ⊢
  have hadditive : outcome (additiveOver levels (primary levels)) s =
      outcome (chain Kind.isMultiplicative levels (primary levels)) s :=
    chain_of_isQuery .sum hproduct hs hclean hquery
  rw [hadditive] at hclean hquery ⊢
  exact chain_of_isQuery .product (primary_reads levels) hs hclean hquery

/-- Behind the last operand there is nothing to link. -/
theorem expr_of_last {s t : State} {e : Expr} (h : outcome (primary levels) s = (e, t))
    (hk : t.current.kind = .eof) : outcome (expr levels) s = (e, t) := by
  have hchain (tier : Tier) {operand : Parser Expr} (hoperand : outcome operand s = (e, t)) :
      outcome (chain tier.joins levels operand) s = (e, t) := by
    rw [outcome_chain, hoperand]
    exact chainLinks_stays (by rw [hk]; exact joins_eof tier) operand _ levels e
  exact hchain .comparison (hchain .sum (hchain .product h))

theorem Turns.append {α : Type} {more : Kind → Bool} {item : Parser α} {s t u : State}
    {as bs : List α} (h : Turns more item s as t) (h' : Turns more item t bs u) :
    Turns more item s (as ++ bs) u := by
  induction h with
  | done s => exact h'
  | turn hmore _ ih => exact .turn hmore (ih h')

/-- Required inputs that are not complained about start as further ones do. -/
theorem times_turns {tier : Tier} {p : Parser Expr} (hp : Reads anyKind p (.phrase tier)) (n : Nat)
    {s : State} (hs : s.Sound) (hclean : (outcome (times p n) s).2.errors = []) :
    Turns Kind.startsExpr p s (outcome (times p n) s).1 (outcome (times p n) s).2 := by
  induction n generalizing s with
  | zero => exact .done s
  | succ n ih =>
    obtain ⟨_, hpassage⟩ := hp.passes s hs trivial
    obtain ⟨_, hpassage'⟩ := (times_reads hp n).passes _ (hpassage.sound hs) trivial
    exact .turn (startsExpr_of_clean hp hs (hpassage'.errors_eq_nil hclean))
      (ih (hpassage.sound hs) hclean)

theorem inputs_turns {tier : Tier} {p : Parser Expr} (hp : Reads anyKind p (.phrase tier))
    (arity : Arity) {s : State} (hs : s.Sound)
    (hclean : (outcome (inputs arity p) s).2.errors = []) :
    Turns Kind.startsExpr p s (outcome (inputs arity p) s).1 (outcome (inputs arity p) s).2 := by
  let t := (outcome (times p arity.least) s).2
  obtain ⟨_, hpassage⟩ := (times_reads hp arity.least).passes s hs trivial
  obtain ⟨_, hpassage'⟩ := (atMost_reads (hp.of_start fun _ _ => trivial)
    (arity.most - arity.least)).passes t (hpassage.sound hs) trivial
  have hrequired := times_turns hp arity.least hs (hpassage'.errors_eq_nil hclean)
  obtain ⟨as, hbuilt, hfurther, _⟩ := collect_turns Kind.startsExpr p
    (List.replicate (arity.most - arity.least) ()) [] t
  change Turns _ p s ((outcome (times p arity.least) s).1 ++ (outcome (collect Kind.startsExpr p
    (List.replicate (arity.most - arity.least) ()) []) t).1) _
  rw [hbuilt]
  exact hrequired.append hfurther

/-! ### Between the parentheses -/

theorem outcome_enclosed (inner : Parser Expr) (s : State) :
    outcome (enclosed inner) s =
      if s.current.kind.isReporter then
        let (inputs, t) := outcome (many Kind.startsExpr inner) (outcome take s).2
        (.query s.current inputs, t)
      else (.group (outcome inner s).1, (outcome inner s).2) := by
  cases hk : s.current.kind with
  | keyword k =>
    simp only [enclosed, outcome_bind, outcome_currentKind, hk, outcome_ite]
    rfl
  | _ =>
    simp only [enclosed, outcome_bind, outcome_currentKind, hk]
    rfl

/-- A bare reporter that is not complained about takes inputs within its arity. -/
theorem term_of_isReporter {operand : Parser Expr}
    (hreads : Reads anyKind operand (.phrase .factor)) {s : State} (hs : s.Sound)
    (hk : s.current.kind.isReporter = true)
    (hclean : (outcome (term levels operand) s).2.errors = []) :
    ∃ arity, outcome (term levels operand) s =
      (.query s.current
        (outcome (inputs arity (additiveOver levels operand)) (outcome take s).2).1,
        (outcome (inputs arity (additiveOver levels operand)) (outcome take s).2).2) := by
  cases hkind : s.current.kind with
  | keyword k =>
    cases harity : k.queryArity? with
    | some arity =>
      refine ⟨arity, ?_⟩
      simp only [term, outcome_bind, outcome_currentKind, hkind, harity]
      rfl
    | none =>
      simp only [term, outcome_bind, outcome_currentKind, hkind, harity] at hclean
      obtain ⟨_, _, _, hnever⟩ := missingExpr_reads hreads s hs trivial
      exact (hnever hclean).elim
  | _ =>
    rw [hkind] at hk
    cases hk

theorem isComparison_of_startsExpr {kind : Kind} (h : kind.startsExpr = true) :
    kind.isComparison = false := by
  cases kind <;> first | rfl | cases h

variable {c : Follow}

/-- Inputs that end with the text are taken in parentheses as well: there each of them may be a
comparison, and none is. -/
theorem inputs_enclosed {arity : Arity} {s s' : State} (hs : s.Sound) (hext : Extends c s s')
    (hclean : (outcome (inputs arity (additiveOver levels (primary levels))) s).2.errors = [])
    (hrest : (outcome (inputs arity (additiveOver levels (primary levels))) s).2.rest = []) :
    Agrees c (outcome (inputs arity (additiveOver levels (primary levels))) s)
      (outcome (many Kind.startsExpr (expr (levels + 1))) s') := by
  have hreads := additiveOver_reads (primary_reads levels) levels
  have hframes : Frames c anyKind (additiveOver levels (primary levels))
      (additiveOver (levels + 1) (primary (levels + 1))) :=
    additiveOver_frames (primary_reads levels) (primary_frames (Nat.le_succ _)) (Nat.le_succ _)
  have hturns := inputs_turns hreads arity hs hclean
  have hreads' : Reads (Kind.startsExpr · = true) (additiveOver levels (primary levels)) _ :=
    hreads.of_start fun _ _ => trivial
  obtain ⟨_, hpassage⟩ := hturns.passes hreads' hs
  have hk := State.kind_of_rest (hpassage.sound hs).eof_kind hrest
  -- Behind each input stands the next one or the end, so no comparison goes on with it.
  have hitem : ∀ s s' : State, s.Sound → Extends c s s' → s.current.kind.startsExpr = true →
      (outcome (additiveOver levels (primary levels)) s).2.errors = [] →
      (outcome (additiveOver levels (primary levels)) s).2.current.kind.isComparison = false →
      Agrees c (outcome (additiveOver levels (primary levels)) s)
        (outcome (expr (levels + 1)) s') := by
    intro s s' hs hext _ hclean hlast
    obtain ⟨hbuilt, hext'⟩ := hframes.agrees s s' hs hext trivial hclean
    obtain ⟨_, hpassage⟩ := hreads.passes s hs trivial
    have htest := hext'.test (hpassage.sound hs) (joins_of_endsExpr .comparison)
    have hstays : outcome (expr (levels + 1)) s' =
        outcome (additiveOver (levels + 1) (primary (levels + 1))) s' :=
      chainLinks_stays (htest.trans hlast) _ _ _ _
    rw [hstays]
    exact ⟨hbuilt, hext'⟩
  obtain ⟨t', hturns', hext'⟩ := hturns.frame
    (P := fun t => t.current.kind.isComparison = false) hreads' hitem
    (fun _ => isComparison_of_startsExpr) rfl hs hext hclean (by rw [hk]; rfl)
  have hle := hturns.length_le hreads' (fun _ _ => Phrase.ne_nil) hs hclean
  have hstops : t'.current.kind.startsExpr = false := by
    have htest := hext'.test (hpassage.sound hs) fun _ => Kind.startsExpr_of_endsExpr
    rw [htest, hk]
    rfl
  have hcollect := collect_of_turns hturns' s'.rest []
    (by rw [hext.rest, List.length_append]; omega) fun _ => hstops
  change Agrees c _ (outcome (collect Kind.startsExpr (expr (levels + 1)) s'.rest []) s')
  rw [hcollect]
  exact ⟨rfl, hext'⟩

/-- The state of a parse behind its first token and an opening parenthesis. -/
def inside (limit : Nat) (keyword opening : Token) (tokens : List Token) (eof : Token) : State :=
  ((opened limit keyword (opening :: tokens) eof).afterMarking .entered).afterTaking opening tokens

theorem outcome_primary_opened {opening : Token} (hopening : opening.kind = .leftParen)
    (levels limit : Nat) (keyword : Token) (ts : List Token) (eof : Token) :
    outcome (primary (levels + 1)) (opened limit keyword (opening :: ts) eof) =
      ((outcome (enclosed (expr levels)) (inside limit keyword opening ts eof)).1,
        (outcome (expect .rightParen) (outcome (enclosed (expr levels))
          (inside limit keyword opening ts eof)).2).2.afterMarking .left) := by
  have hkind : ((opened limit keyword (opening :: ts) eof).afterMarking .entered).current.kind =
      .leftParen := hopening
  rw [primary, outcome_nested]
  simp only [term, outcome_bind, outcome_currentKind, hkind]
  rfl

/-- The end of the text. -/
def Follow.atEnd (heof : eof.kind = .eof) : Follow :=
  ⟨[], eof, by rw [List.headD_nil, heof]; rfl⟩

/-- A closing parenthesis at the end of the text. -/
def Follow.closedBy {closing : Token} (hclosing : closing.kind = .rightParen) (eof : Token) :
    Follow :=
  ⟨[closing], eof, by rw [List.headD_cons, hclosing]; rfl⟩

theorem kind_ne_eof {opening closing : Token} (hopening : opening.kind = .leftParen)
    (htokens : ∀ t ∈ tokens, t.kind ≠ .eof) (hclosing : closing.kind = .rightParen) :
    ∀ t ∈ opening :: (tokens ++ [closing]), t.kind ≠ .eof := by
  intro t ht
  simp only [List.mem_cons, List.mem_append, List.not_mem_nil, or_false] at ht
  rcases ht with rfl | ht | rfl
  · simp [hopening]
  · exact htokens t ht
  · simp [hclosing]

/-- What stands first between the parentheses. -/
theorem isReporter_inside {closing : Token} (hclosing : closing.kind = .rightParen) (limit : Nat)
    (keyword opening : Token) (tokens : List Token) (eof : Token) :
    (inside limit keyword opening (tokens ++ [closing]) eof).current.kind.isReporter =
      tokens.head?.any (·.kind.isReporter) := by
  cases tokens with
  | nil =>
    change closing.kind.isReporter = false
    rw [hclosing]
    rfl
  | cons t tokens => rfl

theorem extends_inside {closing : Token} (hclosing : closing.kind = .rightParen)
    (limit limit' : Nat) (keyword opening : Token) (tokens : List Token) (eof : Token) :
    Extends (.closedBy hclosing eof) (opened limit keyword tokens eof)
      (inside limit' keyword opening (tokens ++ [closing]) eof) :=
  ⟨rfl, rfl, rfl⟩

section Parentheses

variable {opening closing : Token} (hkeyword : keyword.kind = .keyword .show_)
  (hopening : opening.kind = .leftParen) (htokens : ∀ t ∈ tokens, t.kind ≠ .eof)
  (hclosing : closing.kind = .rightParen) (heof : eof.kind = .eof)
include hkeyword htokens heof

/-- One level less makes no difference to an expression that can do with it. -/
theorem expr_of_deeper (h : Shows (levels + 2) keyword tokens eof x)
    (hdeeper : (runTokens (levels + 1) (keyword :: tokens) eof).2.errors = []) :
    Complete (outcome (expr levels) (opened (levels + 1) keyword tokens eof)) x := by
  have hshown := (shows_iff hkeyword heof htokens).mp h
  have hclean := (errors_of_runTokens hkeyword heof hdeeper).1
  have hext : Extends (.atEnd heof) (opened (levels + 1) keyword tokens eof)
      (opened (levels + 2) keyword tokens eof) :=
    ⟨(List.append_nil _).symm, rfl, rfl⟩
  obtain ⟨hbuilt, hext'⟩ := (expr_frames (Nat.le_succ levels)).agrees _ _
    (sound_opened heof _ _ _) hext trivial hclean
  have hempty := hext'.rest.symm.trans hshown.rest
  exact ⟨hbuilt.symm.trans hshown.built, (List.append_eq_nil_iff.mp hempty).1, hclean⟩

include hopening

/-- What is built between the parentheses is the whole expression. -/
theorem shows_of_enclosed {t : State} (hrest : t.rest = [])
    (h : Agrees (.closedBy hclosing eof) (x, t) (outcome (enclosed (expr levels))
      (inside (levels + 2) keyword opening (tokens ++ [closing]) eof))) :
    Shows (levels + 2) keyword (opening :: (tokens ++ [closing])) eof x := by
  obtain ⟨hbuilt, hext⟩ := h
  let u := (outcome (enclosed (expr levels))
    (inside (levels + 2) keyword opening (tokens ++ [closing]) eof)).2
  have hahead : u.rest = [closing] := by
    have hext' := hext.rest
    rwa [hrest] at hext'
  have hcurrent : u.current.kind = .rightParen := by
    rw [State.current, hahead]
    exact hclosing
  have hlast : (outcome take u).2.rest = [] := by
    change u.rest.tail = []
    rw [hahead]
    rfl
  have hend : (outcome take u).2.current.kind = .eof := by
    rw [State.current, hlast]
    change u.eof.kind = .eof
    rw [hext.eof]
    exact heof
  have hprimary : outcome (primary (levels + 1))
      (opened (levels + 2) keyword (opening :: (tokens ++ [closing])) eof) =
      (x, (outcome take u).2.afterMarking .left) := by
    rw [outcome_primary_opened hopening, hbuilt]
    change (x, (outcome (expect .rightParen) u).2.afterMarking .left) = _
    rw [outcome_expect, if_pos hcurrent]
  refine (shows_iff hkeyword heof (kind_ne_eof hopening htokens hclosing)).mpr ?_
  rw [expr_of_last hprimary hend]
  refine ⟨rfl, hlast, (State.errors_afterMarking _ rfl).trans ?_⟩
  exact (State.errors_afterTaking u u.current u.rest.tail).trans hext.errors

include hclosing

theorem shows_group (hfirst : tokens.head?.any (·.kind.isReporter) = false)
    (h : Shows (levels + 2) keyword tokens eof x)
    (hdeeper : (runTokens (levels + 1) (keyword :: tokens) eof).2.errors = []) :
    Shows (levels + 2) keyword (opening :: (tokens ++ [closing])) eof (.group x) := by
  obtain ⟨hx, hrest, hclean⟩ := expr_of_deeper hkeyword htokens heof h hdeeper
  refine shows_of_enclosed hkeyword hopening htokens hclosing heof hrest ?_
  obtain ⟨hbuilt, hext⟩ := (expr_frames (le_refl levels)).agrees _ _ (sound_opened heof _ _ _)
    (extends_inside hclosing (levels + 1) (levels + 2) keyword opening tokens eof) trivial hclean
  have hreporter := isReporter_inside hclosing (levels + 2) keyword opening tokens eof
  rw [outcome_enclosed, hreporter, hfirst, ← hx]
  exact ⟨congrArg Expr.group hbuilt, hext⟩

theorem shows_query (hfirst : tokens.head?.any (·.kind.isReporter) = true)
    (hquery : x.isQuery = true) (h : Shows (levels + 2) keyword tokens eof x)
    (hdeeper : (runTokens (levels + 1) (keyword :: tokens) eof).2.errors = []) :
    Shows (levels + 2) keyword (opening :: (tokens ++ [closing])) eof x := by
  obtain ⟨hx, hrest, hclean⟩ := expr_of_deeper hkeyword htokens heof h hdeeper
  refine shows_of_enclosed hkeyword hopening htokens hclosing heof hrest ?_
  have hs := sound_opened heof (levels + 1) keyword tokens
  have hext := extends_inside hclosing (levels + 1) (levels + 2) keyword opening tokens eof
  have hprimary := expr_of_isQuery hs hclean (hx ▸ hquery)
  rw [hprimary] at hx hrest hclean ⊢
  have hreporter := isReporter_inside hclosing (levels + 2) keyword opening tokens eof
  rw [outcome_enclosed, hreporter, hfirst]
  cases levels with
  | zero => exact absurd hclean ((primaryTooDeep_astray _).errors_ne_nil hs)
  | succ levels =>
    let entered := (opened (levels + 2) keyword tokens eof).afterMarking .entered
    have hs' : entered.Sound := (mark_passage .entered rfl rfl _).sound hs
    have hextEntered : Extends (.closedBy hclosing eof) entered _ := ⟨hext.rest, hext.eof, rfl⟩
    have hk : entered.current.kind.isReporter = true := by
      cases tokens with
      | nil => cases hfirst
      | cons t tokens => exact hfirst
    rw [primary, outcome_nested] at hx hrest hclean ⊢
    rw [State.errors_afterMarking _ rfl] at hclean
    obtain ⟨arity, hterm⟩ := term_of_isReporter (primary_reads levels) hs' hk hclean
    rw [hterm] at hx hrest hclean ⊢
    have hne := ne_eof_of_test (show Kind.isReporter .eof = false from rfl) hk
    -- In parentheses the inputs are taken by a loop of their own, on a level that is higher by one.
    obtain ⟨hbuilt, hext'⟩ := inputs_enclosed ((take_passage hs' hne).sound hs')
      (hextEntered.take hs' hne) hclean hrest
    rw [if_pos rfl, ← hx]
    refine ⟨?_, hext'.rest, hext'.eof, hext'.errors⟩
    change Expr.query _ _ = Expr.query _ _
    rw [hextEntered.current_eq hs' hne, hbuilt]

omit htokens heof hkeyword in
/-- A reporter behind the opening parenthesis makes no group. -/
theorem expr_ne_group (hfirst : tokens.head?.any (·.kind.isReporter) = true) (y : Expr) :
    (outcome (expr (levels + 1))
      (opened (levels + 2) keyword (opening :: (tokens ++ [closing])) eof)).1 ≠ .group y := by
  intro h
  have hprimary := chain_of_group (chain_of_group (chain_of_group h))
  have hreporter := isReporter_inside hclosing (levels + 2) keyword opening tokens eof
  rw [outcome_primary_opened hopening, outcome_enclosed, hreporter, hfirst] at hprimary
  cases hprimary

end Parentheses

/-- An expression that can do with one nesting level less may be put in parentheses: it becomes a
group, or stays as it is if it is a reporter with its inputs. There is one exception: an expression
that begins with a reporter and goes on with an operator behind its inputs is then not what it was,
and may not even be read without a complaint. -/
theorem shows_parenthesized_iff {limit : Nat} {keyword opening closing eof : Token}
    {tokens : List Token} {x : Expr} (hkeyword : keyword.kind = .keyword .show_)
    (hopening : opening.kind = .leftParen) (htokens : ∀ t ∈ tokens, t.kind ≠ .eof)
    (hclosing : closing.kind = .rightParen) (heof : eof.kind = .eof)
    (h : Shows (limit + 1) keyword tokens eof x)
    (hdeeper : (runTokens limit (keyword :: tokens) eof).2.errors = []) :
    (Shows (limit + 1) keyword (opening :: (tokens ++ [closing])) eof (.group x) ∨
      x.isQuery = true ∧ Shows (limit + 1) keyword (opening :: (tokens ++ [closing])) eof x) ↔
      tokens.head?.any (·.kind.isReporter) = false ∨ x.isQuery = true := by
  cases limit with
  | zero =>
    have hastray := statementsTooDeep_astray .document (.start 0 (keyword :: tokens) eof)
    exact absurd hdeeper (hastray.errors_ne_nil (State.sound_start heof))
  | succ levels =>
    cases hfirst : tokens.head?.any (·.kind.isReporter) with
    | false =>
      have hgroup := shows_group hkeyword hopening htokens hclosing heof hfirst h hdeeper
      exact ⟨fun _ => .inl rfl, fun _ => .inl hgroup⟩
    | true =>
      constructor
      · rintro (hgroup | ⟨hquery, _⟩)
        · have hshown := (shows_iff hkeyword heof (kind_ne_eof hopening htokens hclosing)).mp hgroup
          exact absurd hshown.built (expr_ne_group hopening hclosing hfirst x)
        · exact .inr hquery
      · rintro (hfalse | hquery)
        · cases hfalse
        · exact .inr ⟨hquery,
            shows_query hkeyword hopening htokens hclosing heof hfirst hquery h hdeeper⟩

/-- A reporter whose input is a sum stays as it is. -/
theorem first_in_parentheses :
    let token (kind : Kind) (text : String) (column : Nat) : Token := ⟨⟨kind, text⟩, ⟨1, column⟩⟩
    let keyword := token (.keyword .show_) "show" 0
    let first := token (.keyword .first) "first" 6
    let a := token .colonName ":a" 12
    let plus := token .plus "+" 15
    let one := token .number "1" 17
    let x : Expr := .query first [.binary (.reference a) plus (.number one)]
    let tokens := token .leftParen "(" 5 :: ([first, a, plus, one] ++ [token .rightParen ")" 18])
    Shows nestingLimit keyword tokens (.endOfText ⟨1, 19⟩) (.group x) ∨
      x.isQuery = true ∧ Shows nestingLimit keyword tokens (.endOfText ⟨1, 19⟩) x := by
  intro token keyword first a plus one x tokens
  have hbare : Shows (99 + 1) keyword [first, a, plus, one] (.endOfText ⟨1, 19⟩) x :=
    ⟨rfl, by decide +kernel⟩
  exact (shows_parenthesized_iff rfl rfl (by decide) rfl rfl hbare (by decide +kernel)).mpr
    (.inr rfl)

/-- A sum that begins with a reporter is read without a complaint, with levels to spare, and no
longer once it stands in parentheses. -/
theorem xcor_in_parentheses :
    let token (kind : Kind) (text : String) (column : Nat) : Token := ⟨⟨kind, text⟩, ⟨1, column⟩⟩
    let keyword := token (.keyword .show_) "show" 0
    let xcor := token (.keyword .xcor) "xcor" 6
    let plus := token .plus "+" 11
    let ten := token .number "10" 13
    Shows nestingLimit keyword [xcor, plus, ten] (.endOfText ⟨1, 16⟩)
        (.binary (.query xcor []) plus (.number ten)) ∧
      (runTokens (nestingLimit - 1) [keyword, xcor, plus, ten] (.endOfText ⟨1, 16⟩)).2.errors = [] ∧
      (runTokens nestingLimit (keyword :: token .leftParen "(" 5 :: ([xcor, plus, ten] ++
        [token .rightParen ")" 15])) (.endOfText ⟨1, 16⟩)).2.errors.head?.map SyntaxError.message =
          some "missing ')' at '+'" := by
  intro token keyword xcor plus ten
  exact ⟨⟨rfl, by decide +kernel⟩, by decide +kernel, by decide +kernel⟩

end Parser

end LogoServer
