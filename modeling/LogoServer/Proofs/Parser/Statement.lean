import LogoServer.Parser.Statement
import LogoServer.Proofs.Parser.Expr
import Mathlib.Tactic

/-! Accounts of the parsers of statements, at every depth of nesting. -/
namespace LogoServer

/-- A token of the kind starts a statement of the form. -/
def StatementForm.Starts : StatementForm → Kind → Prop
  | .command slots, kind => ∃ k, kind = .keyword k ∧ k.statementForm? = some (.command slots)
  | .setPosition, kind => kind = .keyword .set
  | .definition form, kind => kind = .keyword form.keyword
  | .binding form, kind => kind = .keyword form.keyword
  | .loop form, kind => kind = .keyword form.keyword
  | .call, kind => kind = .name

theorem StatementForm.starts_of_statementForm? {kind : Kind} {form : StatementForm}
    (h : kind.statementForm? = some form) : form.Starts kind := by
  cases kind with
  | keyword k => cases k <;> cases h <;> first | rfl | exact ⟨_, rfl, rfl⟩
  | name =>
    cases h
    rfl
  | _ => cases h

theorem StatementForm.not_starts_eof (form : StatementForm) : ¬ form.Starts .eof := by
  cases form <;> simp [Starts]

namespace Parser

open Grammar

variable {α : Type}

namespace Account

def sentence : Account Statement :=
  ⟨fun s ts => Gathered s.events ts, Sentence⟩

def sentences : Account (List Statement) :=
  ⟨fun ss ts => Gathered (Statement.eventsOfAll ss) ts, Each Sentence⟩

def block : Account (List Statement) :=
  ⟨fun ss ts => Gathered (Statement.eventsOfAll ss) ts, Block⟩

/-- What one slot of a command takes, before what the slots behind it take. -/
def argument (slot : Slot) : Account Argument where
  always a ts := Gathered a.events ts
  clean a ts := ∀ slots as us, Filling slots as us → Filling (slot :: slots) (a :: as) (ts ++ us)

def filling (slots : List Slot) : Account (List Argument) :=
  ⟨fun as ts => Gathered (Argument.eventsOfAll as) ts, Filling slots⟩

/-- What is owed for the tokens behind a first one. -/
def opened (t : Token) (A : Account α) : Account α :=
  ⟨fun a ts => A.always a (t :: ts), fun a ts => A.clean a (t :: ts)⟩

end Account

theorem take_bind_reads {start : Kind → Prop} (hstart : ¬ start .eof) {f : Token → Parser α}
    {A : Account α} (hf : ∀ t, start t.kind → Reads anyKind (f t) (A.opened t)) :
    Reads start (take >>= f) A := by
  intro s hs hk
  have hne : s.current.kind ≠ .eof := fun he => hstart (he ▸ hk)
  have hfirst := take_passage hs hne
  obtain ⟨notes, hpassage, halways, hclean⟩ :=
    hf s.current hk (outcome take s).2 (hfirst.sound hs) trivial
  exact ⟨_, hfirst.trans hpassage, halways, hclean⟩

theorem takeWhere_reads {kind : Kind} (hkind : kind ≠ .eof) :
    Reads (fun k => (k == kind) = true) take (.one (· = kind)) := by
  refine (take_reads _ (by simpa using hkind.symm)).mono ?_ ?_ <;>
    exact fun t ts h => ⟨by simpa using h.1, h.2⟩

/-- Tokens of one kind are kept as they are taken. -/
theorem takeMany_reads {kind : Kind} (hkind : kind ≠ .eof) :
    Reads anyKind (many (· == kind) take)
      (.both fun as ts => (∀ a ∈ as, a.kind = kind) ∧ as = ts) := by
  refine (many_reads (takeWhere_reads hkind)).mono ?_ ?_
  all_goals
    intro as ts h
    induction h with
    | nil => exact ⟨by simp, rfl⟩
    | cons head _ ih =>
      obtain ⟨hkind, rfl⟩ := head
      obtain ⟨hkinds, rfl⟩ := ih
      exact ⟨List.forall_mem_cons.mpr ⟨hkind, hkinds⟩, rfl⟩

section Body

variable {body : Body} (hbody : ∀ scope, Reads anyKind (body scope) .sentences)
include hbody

theorem block_reads : Reads anyKind (block body) .block := by
  refine ((expect_reads (by simp)).bind fun _ => (hbody .block).bind fun _ =>
    (expect_reads (by simp)).bind fun _ => .pure _ _).mono ?_ ?_
  · rintro _ ts ⟨_, us, _, rfl, _, statements, vs, _, rfl, hstatements, _, ws, _, rfl, _, rfl, rfl⟩
    exact Gathered.behind us (Gathered.before _ hstatements)
  · rintro _ ts ⟨_, _, _, rfl, ⟨opening, hopening, rfl, rfl⟩, statements, us, _, rfl, hstatements,
      _, _, _, rfl, ⟨closing, hclosing, rfl, rfl⟩, rfl, rfl⟩
    exact .mk hopening hstatements hclosing

theorem argument_reads (levels : Nat) (slot : Slot) :
    Reads anyKind (argument levels body slot) (.argument slot) := by
  cases slot with
  | expr => exact (expr_reads levels).map (fun _ _ h => h) fun value ts h slots as us => .expr h
  | block => exact (block_reads hbody).map (fun _ _ h => h) fun body ts h slots as us => .block h

theorem arguments_reads (levels : Nat) (slots : List Slot) :
    Reads anyKind (arguments levels body slots) (.filling slots) := by
  induction slots with
  | nil =>
    refine (Reads.pure _ _).mono ?_ ?_
    · rintro _ ts ⟨rfl, rfl⟩
      exact Gathered.nil _
    · rintro _ ts ⟨rfl, rfl⟩
      exact .nil
  | cons slot slots ih =>
    refine ((argument_reads hbody levels slot).bind fun _ => ih.bind fun _ => .pure _ _).mono ?_ ?_
    · rintro _ ts ⟨a, us, _, rfl, ha, as, vs, _, rfl, has, rfl, rfl⟩
      rw [List.append_nil]
      exact Gathered.append ha has
    · rintro _ ts ⟨a, us, _, rfl, ha, as, vs, _, rfl, has, rfl, rfl⟩
      rw [List.append_nil]
      exact ha slots as vs has

theorem command_reads (levels : Nat) {first : Token} {slots : List Slot}
    (hfirst : (StatementForm.command slots).Starts first.kind) :
    Reads anyKind (do return .command first (← arguments levels body slots))
      (.opened first .sentence) := by
  obtain ⟨k, hk, hslots⟩ := hfirst
  refine (arguments_reads hbody levels slots).map ?_ ?_
  · intro arguments ts harguments
    exact Gathered.cons ⟨k, hk⟩ harguments
  · intro arguments ts harguments
    exact .command hk hslots harguments

omit hbody in
theorem setPosition_reads (levels : Nat) {first : Token}
    (hfirst : StatementForm.setPosition.Starts first.kind) :
    Reads anyKind (do
      let target ← expect (.keyword .pos)
      return .setPosition first target (← expr levels)) (.opened first .sentence) := by
  refine ((expect_reads (by simp)).bind fun _ => (expr_reads levels).bind fun _ =>
    .pure _ _).mono ?_ ?_
  · rintro _ ts ⟨target, _, _, rfl, ⟨htarget, rfl⟩, value, us, _, rfl, hvalue, rfl, rfl⟩
    have htargets : Gathered (Event.ofOption .keyword target) target.toList :=
      Gathered.ofOption fun t ht => ⟨⟨_, htarget t ht⟩, rfl⟩
    rw [List.append_nil]
    exact Gathered.cons ⟨_, hfirst⟩ (htargets.append hvalue)
  · rintro _ ts ⟨_, _, _, rfl, ⟨target, htarget, rfl, rfl⟩, value, us, _, rfl, hvalue, rfl, rfl⟩
    rw [List.append_nil]
    exact .setPosition hfirst htarget hvalue

omit hbody in
theorem call_reads (levels : Nat) {first : Token} (hfirst : StatementForm.call.Starts first.kind) :
    Reads anyKind (do return .call first (← many Kind.startsExpr (expr levels)))
      (.opened first .sentence) := by
  refine (many_reads ((expr_reads levels).of_start fun _ _ => trivial)).map ?_ ?_
  · intro inputs ts hinputs
    exact Gathered.cons hfirst (Gathered.eventsOfAll hinputs)
  · intro inputs ts hinputs
    exact .call hfirst (.of_each hinputs)

theorem to_reads {first : Token} (hfirst : first.kind = .keyword .to) :
    Reads anyKind (definition body first .to) (.opened first .sentence) := by
  refine ((expect_reads (by simp)).bind fun _ =>
    (takeMany_reads (by simp)).bind fun _ => (hbody .procedure).bind fun _ =>
    (expect_reads (by simp)).bind fun _ => .pure _ _).mono ?_ ?_
  · rintro _ ts ⟨name, _, _, rfl, ⟨hname, rfl⟩, parameters, _, _, rfl, ⟨hparameters, rfl⟩,
      statements, us, _, rfl, hstatements, closing, _, _, rfl, ⟨hclosing, rfl⟩, rfl, rfl⟩
    have hnames : Gathered (Event.ofOption (.definition .to) name) name.toList :=
      Gathered.ofOption fun t ht => ⟨hname t ht, rfl⟩
    have hparams : Gathered (parameters.map (.parameter .to)) parameters :=
      Gathered.map fun t ht => ⟨hparameters t ht, rfl⟩
    have hclosings : Gathered (Event.ofOption .keyword closing) closing.toList :=
      Gathered.ofOption fun t ht => ⟨⟨_, hclosing t ht⟩, rfl⟩
    have h := Gathered.cons (e := .keyword first) ⟨_, hfirst⟩
      (((hnames.append hparams).append hstatements).append hclosings)
    simpa [Account.sentence, Account.opened, Statement.events, Event.token] using h
  · rintro _ ts ⟨_, _, _, rfl, ⟨name, hname, rfl, rfl⟩, parameters, _, _, rfl, ⟨hparameters, rfl⟩,
      statements, us, _, rfl, hstatements, _, _, _, rfl, ⟨closing, hclosing, rfl, rfl⟩, rfl, rfl⟩
    exact .to hfirst hname hparameters hstatements hclosing

theorem define_reads {first : Token} (hfirst : first.kind = .keyword .define) :
    Reads anyKind (definition body first .define) (.opened first .sentence) := by
  refine ((expect_reads (by simp)).bind fun _ => (expect_reads (by simp)).bind fun _ =>
    (expect_reads (by simp)).bind fun _ => (takeMany_reads (by simp)).bind fun _ =>
    (expect_reads (by simp)).bind fun _ => (block_reads hbody).bind fun _ =>
    (expect_reads (by simp)).bind fun _ => (takeIf_reads (by simp)).bind fun _ =>
    .pure _ _).mono ?_ ?_
  · rintro _ ts ⟨name, _, _, rfl, ⟨hname, rfl⟩, _, vs₁, _, rfl, _, _, vs₂, _, rfl, _,
      parameters, _, _, rfl, ⟨hparameters, rfl⟩, _, vs₃, _, rfl, _,
      statements, us, _, rfl, hstatements, _, vs₄, _, rfl, _,
      closing, _, _, rfl, ⟨hclosing, rfl⟩, rfl, rfl⟩
    have hnames : Gathered (Event.ofOption (.definition .define) name) name.toList :=
      Gathered.ofOption fun t ht => ⟨hname t ht, rfl⟩
    have hparams : Gathered (parameters.map (.parameter .define)) parameters :=
      Gathered.map fun t ht => ⟨hparameters t ht, rfl⟩
    have hclosings : Gathered (Event.ofOption .keyword closing) closing.toList :=
      Gathered.ofOption fun t ht => ⟨⟨_, hclosing t ht⟩, rfl⟩
    have h := Gathered.cons (e := .keyword first) ⟨_, hfirst⟩
      (((hnames.append (hparams.behind (vs₁ ++ vs₂))).append
        (Gathered.behind vs₃ hstatements)).append (hclosings.behind vs₄))
    simpa [Account.sentence, Account.opened, Statement.events, Event.token] using h
  · rintro _ ts ⟨_, _, _, rfl, ⟨name, hname, rfl, rfl⟩, _, _, _, rfl, ⟨opening, hopening, rfl, rfl⟩,
      _, _, _, rfl, ⟨opening', hopening', rfl, rfl⟩, parameters, _, _, rfl, ⟨hparameters, rfl⟩,
      _, _, _, rfl, ⟨closing', hclosing', rfl, rfl⟩, statements, us, _, rfl, hstatements,
      _, _, _, rfl, ⟨closing, hclosing, rfl, rfl⟩, final, _, _, rfl, ⟨hfinal, rfl⟩, rfl, rfl⟩
    rw [List.append_nil]
    exact .define hfirst hname hopening hopening' hparameters hclosing'
      hstatements hclosing hfinal

omit hbody in
theorem Gathered.binding (form : BindingForm) {name : Option Token}
    (hname : ∀ t ∈ name, t.kind = .word) :
    Gathered (Event.ofOption (.binding form) name) name.toList :=
  Gathered.ofOption fun t ht => ⟨hname t ht, rfl⟩

omit hbody in
theorem wordThenValue_reads (levels : Nat) {first : Token} {form : BindingForm}
    (hform : form ≠ .name) (hfirst : (StatementForm.binding form).Starts first.kind) :
    Reads anyKind (do
      let name ← expect .word
      let value ← expr levels
      return .binding form first name value) (.opened first .sentence) := by
  refine ((expect_reads (by simp)).bind fun _ => (expr_reads levels).bind fun _ =>
    .pure _ _).mono ?_ ?_
  · rintro _ ts ⟨name, _, _, rfl, ⟨hname, rfl⟩, value, us, _, rfl, hvalue, rfl, rfl⟩
    have h := (Gathered.binding form hname).append hvalue
    rw [List.append_nil]
    cases form with
    | name => exact absurd rfl hform
    | make => exact Gathered.cons ⟨_, hfirst⟩ h
    | localmake => exact Gathered.cons ⟨_, hfirst⟩ h
  · rintro _ ts ⟨_, _, _, rfl, ⟨name, hname, rfl, rfl⟩, value, us, _, rfl, hvalue, rfl, rfl⟩
    rw [List.append_nil]
    exact .binding hform hfirst hname hvalue

omit hbody in
theorem binding_reads (levels : Nat) {first : Token} {form : BindingForm}
    (hfirst : (StatementForm.binding form).Starts first.kind) :
    Reads anyKind (binding levels first form) (.opened first .sentence) := by
  cases form with
  | name =>
    refine ((expr_reads levels).bind fun _ => (expect_reads (by simp)).bind fun _ =>
      .pure _ _).mono ?_ ?_
    · rintro _ ts ⟨value, us, _, rfl, hvalue, name, _, _, rfl, ⟨hname, rfl⟩, rfl, rfl⟩
      rw [List.append_nil]
      exact Gathered.cons ⟨_, hfirst⟩ (Gathered.append hvalue (Gathered.binding .name hname))
    · rintro _ ts ⟨value, us, _, rfl, hvalue, _, _, _, rfl, ⟨name, hname, rfl, rfl⟩, rfl, rfl⟩
      exact .name hfirst hvalue hname
  | make => exact wordThenValue_reads levels (by simp) hfirst
  | localmake => exact wordThenValue_reads levels (by simp) hfirst

theorem loop_reads (levels : Nat) {first : Token} {form : LoopForm}
    (hfirst : (StatementForm.loop form).Starts first.kind) :
    Reads anyKind (loop levels body first form) (.opened first .sentence) := by
  have hbounds : form.bounds.least ≤ form.bounds.most := by cases form <;> decide
  refine ((expect_reads (by simp)).bind fun _ => (expect_reads (by simp)).bind fun _ =>
    (inputs_reads hbounds (expr_reads levels)).bind fun _ => (expect_reads (by simp)).bind fun _ =>
    (block_reads hbody).bind fun _ => .pure _ _).mono ?_ ?_
  · rintro _ ts ⟨_, vs₁, _, rfl, _, counter, _, _, rfl, ⟨hcounter, rfl⟩, bounds, us, _, rfl,
      ⟨_, hbounds⟩, _, vs₂, _, rfl, _, statements, ws, _, rfl, hstatements, rfl, rfl⟩
    have hcounters : Gathered (Event.ofOption (.counter form) counter) counter.toList :=
      Gathered.ofOption fun t ht => ⟨hcounter t ht, rfl⟩
    have h := Gathered.cons (e := .keyword first) ⟨_, hfirst⟩
      (((hcounters.behind vs₁).append (Gathered.eventsOfAll hbounds)).append
        (Gathered.behind vs₂ hstatements))
    simpa [Account.sentence, Account.opened, Statement.events, Event.token] using h
  · rintro _ ts ⟨_, _, _, rfl, ⟨opening, hopening, rfl, rfl⟩, _, _, _, rfl,
      ⟨counter, hcounter, rfl, rfl⟩, bounds, us, _, rfl, ⟨⟨hleast, hmost⟩, hbounds⟩, _, _, _, rfl,
      ⟨closing, hclosing, rfl, rfl⟩, statements, ws, _, rfl, hstatements, rfl, rfl⟩
    rw [List.append_nil]
    exact .loop hfirst hopening hcounter hleast hmost (.of_each hbounds) hclosing hstatements

/-- Each form of statement keeps to the account behind its first token. -/
theorem statementOf_reads (levels : Nat) (form : StatementForm) :
    Reads form.Starts (statementOf levels body form) .sentence := by
  refine take_bind_reads form.not_starts_eof fun first hfirst => ?_
  cases form with
  | command slots => exact command_reads hbody levels hfirst
  | setPosition => exact setPosition_reads levels hfirst
  | definition form =>
    match form with
    | .to => exact to_reads hbody hfirst
    | .define => exact define_reads hbody hfirst
  | binding form => exact binding_reads levels hfirst
  | loop form => exact loop_reads hbody levels hfirst
  | call => exact call_reads levels hfirst

theorem statement_reads (levels : Nat) :
    Reads (·.startsStatement = true) (statement levels body) .sentence := by
  refine Reads.currentKind_bind fun kind hkind => ?_
  obtain ⟨form, hform⟩ := Option.isSome_iff_exists.mp hkind
  rw [hform]
  refine (statementOf_reads hbody levels form).of_start ?_
  rintro _ rfl
  exact StatementForm.starts_of_statementForm? hform

end Body

/-! ### Sequences -/

theorem Scope.continues_of_startsStatement (scope : Scope) {kind : Kind}
    (h : kind.startsStatement = true) : scope.continues kind = true := by
  rw [Scope.continues, h, Bool.true_or]

/-- Either nothing has to be passed over, or the parse goes astray. -/
theorem outcome_resume (scope : Scope) (s : State) :
    outcome (resume scope) s =
      if scope.continues s.current.kind then ((), s)
      else outcome (skip (s.rest.takeWhile fun t => !scope.continues t.kind).length)
        (outcome (complain
          (.extraneous s.current.toLexeme (Kind.accepted scope.continues))) s).2 := by
  change outcome (if scope.continues s.current.kind then _ else _) s = _
  rw [outcome_ite]
  rfl

theorem resume_cases (scope : Scope) (s : State) :
    (scope.continues s.current.kind = true ∧ (outcome (resume scope) s).2 = s) ∨
      Astray s (outcome (resume scope) s).2 := by
  rw [outcome_resume]
  split_ifs with h
  · exact .inl ⟨h, rfl⟩
  · exact .inr ((complain_astray _ rfl s).trans fun h => skip_astray _ h)

theorem resume_reads (scope : Scope) :
    Reads anyKind (resume scope) (.both fun _ ts => ts = []) := by
  intro s hs _
  rcases resume_cases scope s with ⟨_, h⟩ | h
  · rw [h]
    exact ⟨[], .stay s, rfl, fun _ => rfl⟩
  · obtain ⟨notes, hpassage, htaken, _⟩ := h
    exact ⟨notes, hpassage, htaken, fun _ => htaken⟩

/-- Without a complaint, what is ahead continues the sequence or ends it. -/
theorem resume_continues (scope : Scope) {s : State} (hs : s.Sound)
    (hclean : (outcome (resume scope) s).2.errors = []) :
    scope.continues (outcome (resume scope) s).2.current.kind = true := by
  rcases resume_cases scope s with ⟨hcontinues, h⟩ | h
  · rw [h]
    exact hcontinues
  · exact absurd hclean (h.errors_ne_nil hs)

/-- A statement of a sequence and the way to the next one. -/
def item (scope : Scope) (statement : Parser Statement) : Parser Statement := do
  let s ← statement
  resume scope
  return s

theorem outcome_item (scope : Scope) (p : Parser Statement) (s : State) :
    outcome (item scope p) s =
      ((outcome p s).1, (outcome (resume scope) (outcome p s).2).2) := rfl

section Item

variable {scope : Scope} {p : Parser Statement}
  (hp : Reads (·.startsStatement = true) p .sentence)
include hp

theorem item_reads : Reads (·.startsStatement = true) (item scope p) .sentence := by
  refine (hp.bind fun _ => (resume_reads scope).bind fun _ => .pure _ _).mono ?_ ?_
  all_goals
    rintro _ ts ⟨s, us, _, rfl, hs, _, _, _, rfl, rfl, rfl, rfl⟩
    simpa using hs

theorem sequence_reads : Reads anyKind (sequence scope p) .sentences := by
  refine ((resume_reads scope).bind fun _ => many_reads (item_reads hp)).mono ?_ ?_
  · rintro _ ts ⟨_, _, us, rfl, rfl, h⟩
    change Gathered (Statement.eventsOfAll _) _
    rw [Statement.eventsOfAll_eq]
    exact Gathered.flatMap h
  · rintro _ ts ⟨_, _, us, rfl, rfl, h⟩
    exact h

/-- Without a complaint a sequence ends at its closer. -/
theorem sequence_stops {s : State} (hs : s.Sound)
    (hclean : (outcome (sequence scope p) s).2.errors = []) :
    (outcome (sequence scope p) s).2.current.kind = scope.closer := by
  obtain ⟨notes, hpassage, _, _⟩ := resume_reads scope s hs trivial
  have hs' := hpassage.sound hs
  have hitem : Reads _ (item scope p) _ := item_reads hp
  obtain ⟨_, hpassage', _, _⟩ := many_reads hitem _ hs' trivial
  have hstops := collect_stops (P := fun s => scope.continues s.current.kind = true)
    hitem rfl (fun _ _ h => h.ne_nil) ?_ _ [] hs' le_rfl
    (resume_continues scope hs (hpassage'.errors_eq_nil hclean)) hclean
  · obtain ⟨hcontinues, hstarts⟩ := hstops
    rw [Scope.continues, hstarts, Bool.false_or, decide_eq_true_eq] at hcontinues
    exact hcontinues
  · intro t ht hk hclean
    obtain ⟨_, hpassage, _, _⟩ := hp t ht hk
    exact resume_continues scope (hpassage.sound ht) hclean

end Item

theorem statementsTooDeep_astray (scope : Scope) (s : State) :
    Astray s (outcome (statementsTooDeep scope) s).2 :=
  (complainTooDeep_astray s).trans fun h => skipToCloser_astray _ _ h

theorem statementsTooDeep_reads (scope : Scope) :
    Reads anyKind (statementsTooDeep scope) .sentences :=
  Reads.of_astray (fun s _ => statementsTooDeep_astray scope s) fun _ => Gathered.nil _

/-- Sequences keep their account at every depth. -/
theorem statements_reads (levels : Nat) (scope : Scope) :
    Reads anyKind (statements levels scope) .sentences := by
  induction levels generalizing scope with
  | zero => exact statementsTooDeep_reads scope
  | succ levels ih => exact (sequence_reads (statement_reads ih levels)).nested

theorem statements_stops (levels : Nat) (scope : Scope) {s : State} (hs : s.Sound)
    (hclean : (outcome (statements levels scope) s).2.errors = []) :
    (outcome (statements levels scope) s).2.current.kind = scope.closer := by
  cases levels with
  | zero => exact absurd hclean ((statementsTooDeep_astray scope s).errors_ne_nil hs)
  | succ levels =>
    have hs' := (mark_passage .entered rfl rfl s).sound hs
    have hleave := mark_passage .left rfl rfl
      (outcome (sequence scope (statement levels (statements levels))) (s.afterMarking .entered)).2
    exact sequence_stops (statement_reads (statements_reads levels) levels) hs'
      (hleave.errors_eq_nil hclean)

end Parser

end LogoServer
