import LogoServer.Proofs.Parser.Restore

/-! Statements are restored from their print, at every depth of nesting. Only `define` without its
closing keyword asks for something of what stands behind: it would take an `end` that is not its
own, and in a text without errors none stands there. -/
namespace LogoServer

/-- The statement would take a closing keyword that stood behind it. -/
def Statement.isOpen : Statement → Bool
  | .definition .define _ _ _ _ none => true
  | _ => false

theorem Grammar.Tier.goesOn_eq_false_of_startsStatement {tier : Tier} {kind : Kind}
    (h : kind.startsStatement = true) : tier.goesOn kind = false := by
  cases tier <;> cases kind <;> first | rfl | cases h

namespace Parser

open Grammar

variable {α : Type} {place : Position}

/-! ### Further loops and single tokens -/

/-- What is built of a first token and what stands behind it. -/
def Layout.opened (t : Token) (L : Layout α) : Layout α :=
  ⟨fun a ts => L.spells a (t :: ts), L.follows⟩

theorem take_keep_restores {start : Kind → Prop} (hstart : ¬ start .eof) {f g : Token → Parser α}
    {L : Layout α} (hf : ∀ t, start t.kind → Restores anyKind (f t) (g t) (L.opened t)) :
    Restores start (take >>= f) (take >>= g) L where
  passes s hs hk := by
    have htake := take_passage hs fun he => hstart (he ▸ hk)
    obtain ⟨ms, hms⟩ := (hf s.current hk).passes _ (htake.sound hs) trivial
    exact ⟨_, htake.trans hms⟩
  restores s hs hk hclean := by
    have htake := take_passage hs fun he => hstart (he ▸ hk)
    obtain ⟨us, hus, hrebuilds⟩ := (hf s.current hk).restores _ (htake.sound hs) trivial hclean
    refine ⟨s.current :: us, hus, fun s' vs hclear hvs => ?_⟩
    rw [outcome_bind, outcome_take_fst, hclear.current]
    exact hrebuilds _ vs hclear.take hvs

/-- Tokens of one kind are written as they stand. -/
theorem takeMany_restores {kind : Kind} (hkind : kind ≠ .eof) :
    Restores anyKind (many (· == kind) take) (many (· == kind) take)
      ⟨fun as ts => ts = as, fun _ k => k ≠ kind⟩ := by
  have hone : Restores (fun k => (k == kind) = true) take take (.token kind) :=
    (take_restores hkind).of_start fun _ h => by simpa using h
  refine (many_restores hone (by simpa using hkind.symm) ?_ fun _ _ _ => trivial).mono ?_ ?_
  · rintro t _ ⟨ht, rfl⟩
    simp [ht]
  · intro as ts h
    obtain rfl := eq_flatMap_of_each (fun _ _ h => h.2) h
    simp
  · intro as k hk
    exact ⟨by simpa using hk, fun _ _ => trivial⟩

theorem outcome_takeIf (kind : Kind) (s : State) :
    outcome (takeIf kind) s =
      if s.current.kind = kind then (some s.current, (outcome take s).2) else (none, s) := by
  change outcome (if s.current.kind = kind then _ else _) s = _
  rw [outcome_ite]
  rfl

/-- A token that is not there must not stand behind either. -/
theorem takeIf_restores {kind : Kind} (hkind : kind ≠ .eof) :
    Restores anyKind (takeIf kind) (takeIf kind)
      ⟨fun found ts => ts = found.toList, fun found k => found = none → k ≠ kind⟩ where
  passes := (takeIf_reads hkind).passes
  restores s _ _ _ := by
    rw [outcome_takeIf]
    split_ifs with hk
    · refine ⟨[s.current], rfl, fun s' us hclear _ => ?_⟩
      have hcurrent : s'.current = s.current := hclear.current
      rw [outcome_takeIf, hcurrent, if_pos hk]
      exact ⟨rfl, hclear.take⟩
    · refine ⟨[], rfl, fun s' us hclear hus => ?_⟩
      have hne : s'.current.kind ≠ kind := by
        rw [hclear.kind]
        exact hus rfl
      rw [outcome_takeIf, if_neg hne]
      exact ⟨rfl, hclear⟩

theorem times_of_turns {more : Kind → Bool} {item : Parser α} {s t : State} {as : List α}
    (h : Turns more item s as t) {n : Nat} (hn : n ≤ as.length) :
    (outcome (times item n) s).1 = as.take n ∧
      Turns more item (outcome (times item n) s).2 (as.drop n) t := by
  induction n generalizing s as with
  | zero => exact ⟨rfl, h⟩
  | succ n ih =>
    cases h with
    | done => simp at hn
    | turn _ h =>
      obtain ⟨hbuilt, hturns⟩ := ih h (by simpa using hn)
      refine ⟨?_, hturns⟩
      rw [List.take_succ_cons, ← hbuilt]
      rfl

/-- A number of turns within the arity makes up the inputs. -/
theorem inputs_of_turns {item : Parser α} {s t : State} {as : List α}
    (h : Turns Kind.startsExpr item s as t) {arity : Arity} (hleast : arity.least ≤ as.length)
    (hmost : as.length ≤ arity.most) (hstop : t.current.kind.startsExpr = false) :
    outcome (inputs arity item) s = (as, t) := by
  obtain ⟨hbuilt, hturns⟩ := times_of_turns h hleast
  have hfurther := collect_of_turns hturns (List.replicate (arity.most - arity.least) ()) []
    (by simp; omega) fun _ => hstop
  have hinputs : outcome (inputs arity item) s =
      ((outcome (times item arity.least) s).1 ++ (outcome (collect Kind.startsExpr item
          (List.replicate (arity.most - arity.least) ()) []) (outcome (times item arity.least) s).2).1,
        (outcome (collect Kind.startsExpr item (List.replicate (arity.most - arity.least) ()) [])
          (outcome (times item arity.least) s).2).2) := rfl
  rw [hinputs, hfurther, hbuilt]
  simp

/-- Inputs that are written out. -/
def Layout.phrases (place : Position) : Layout (List Expr) :=
  ⟨fun es ts => ts = Expr.printedAll place es,
    fun _ k => k.startsExpr = false ∧ Tier.goesOn .comparison k = false⟩

theorem inputs_restores (place : Position) {arity : Arity} (harity : arity.least ≤ arity.most) (levels : Nat) :
    Restores anyKind (inputs arity (expr levels)) (inputs arity (expr levels))
      (.phrases place) where
  passes := (inputs_reads harity (expr_reads levels)).passes
  restores s hs _ hclean := by
    have hturns := inputs_turns (expr_reads levels) arity hs hclean
    obtain ⟨_, _, ⟨⟨hleast, hmost⟩, _⟩, _⟩ := inputs_reads harity (expr_reads levels) s hs trivial
    have hitem : Restores (Kind.startsExpr · = true) (expr levels) (expr levels)
        (.phrase place .comparison) := (expr_restores place levels).of_start fun _ _ => trivial
    obtain ⟨ts, hts, hrestored⟩ := hturns.restore hitem rfl
      (fun _ _ h => Tier.startsExpr_of_opensOperand h.2)
      (fun _ _ h => Tier.goesOn_eq_false_of_startsExpr h) hs hclean
    refine ⟨ts, ?_, fun s' us hclear ⟨hstop, hgoesOn⟩ => ?_⟩
    · obtain rfl := eq_flatMap_of_each (fun _ _ h => h.1) hts
      exact (Expr.printedAll_eq place _).symm
    · obtain ⟨t', hturns', hclear'⟩ := hrestored s' us hclear fun _ _ => hgoesOn
      rw [inputs_of_turns hturns' hleast hmost (by rw [hclear'.kind]; exact hstop)]
      exact ⟨rfl, hclear'⟩

theorem manyExpr_restores (place : Position) (levels : Nat) :
    Restores anyKind (many Kind.startsExpr (expr levels)) (many Kind.startsExpr (expr levels))
      (.phrases place) := by
  have hitem : Restores (Kind.startsExpr · = true) (expr levels) (expr levels)
      (.phrase place .comparison) := (expr_restores place levels).of_start fun _ _ => trivial
  refine (many_restores hitem rfl (fun _ _ h => Tier.startsExpr_of_opensOperand h.2)
    fun _ _ h => Tier.goesOn_eq_false_of_startsExpr h).mono ?_ ?_
  · intro es ts h
    obtain rfl := eq_flatMap_of_each (fun _ _ h => h.1) h
    exact (Expr.printedAll_eq place es).symm
  · rintro es k ⟨hstop, hgoesOn⟩
    exact ⟨hstop, fun _ _ => hgoesOn⟩

/-! ### Parts of statements -/

namespace Layout

/-- A statement whose first token is of the given sort. -/
def statement (place : Position) (starts : Kind → Prop) : Layout Statement where
  spells st ts := ts = st.printed place ∧ starts (nextKind ts)
  follows st k := k.startsExpr = false ∧ Tier.goesOn .comparison k = false ∧
    (st.isOpen = true → k ≠ .keyword .end_)

def sentence (place : Position) (form : StatementForm) : Layout Statement :=
  statement place (·.statementForm? = some form)

/-- Statements before the kind that ends their sequence. -/
def sentences (place : Position) (scope : Scope) : Layout (List Statement) where
  spells ss ts := ts = Statement.printedAll place ss ∧
    (ts = [] ∨ (nextKind ts).startsStatement = true)
  follows _ k := k = scope.closer

def block (place : Position) : Layout (List Statement) :=
  ⟨fun ss ts => ts = Token.inBrackets place (Statement.printedAll place ss), fun _ _ => True⟩

def argument (place : Position) : Layout Argument :=
  ⟨fun a ts => ts = a.printed place ∧ (nextKind ts).opensOperand = true,
    fun _ k => Tier.goesOn .comparison k = false⟩

def arguments (place : Position) : Layout (List Argument) :=
  ⟨fun as ts => ts = Argument.printedAll place as ∧
      (ts = [] ∨ (nextKind ts).opensOperand = true),
    fun _ k => Tier.goesOn .comparison k = false⟩

end Layout

section Body

variable {body : Body} (hreads : ∀ scope, Reads anyKind (body scope) .sentences)
  (hbody : ∀ scope, Restores anyKind (body scope) (body scope) (.sentences place scope))
include hbody

theorem block_restores : Restores anyKind (block body) (block body) (.block place) := by
  have hclosing (ss : List Statement) := @expect_bind_restores _ _ _ _ _
    (⟨⟨.rightBracket, "]"⟩, place⟩ : Token) (by simp) (Restores.pure anyKind ss fun _ _ => True)
  have hall := @expect_bind_restores _ _ _ _ _ (⟨⟨.leftBracket, "["⟩, place⟩ : Token) (by simp)
    ((hbody .block).bind hclosing (by
      rintro ss _ _ us ⟨_, rfl, rfl, rfl⟩ _
      rfl))
  refine Restores.mono hall ?_ fun _ _ => id
  rintro _ _ ⟨_, rfl, ss, ts, _, rfl, ⟨rfl, _⟩, _, rfl, rfl, rfl⟩
  rfl

theorem argument_restores (levels : Nat) (slot : Slot) :
    Restores anyKind (argument levels body slot) (argument levels body slot)
      (.argument place) := by
  cases slot with
  | expr => exact (expr_restores place levels).map (fun _ _ h => h) fun _ _ => id
  | block =>
    refine (block_restores hbody).map ?_ fun _ _ _ => trivial
    rintro ss _ rfl
    exact ⟨rfl, rfl⟩

theorem arguments_restores (levels : Nat) (slots : List Slot) :
    Restores anyKind (arguments levels body slots) (arguments levels body slots)
      (.arguments place) := by
  induction slots with
  | nil =>
    refine (Restores.pure anyKind ([] : List Argument) _).mono ?_ fun _ _ => id
    rintro _ _ ⟨rfl, rfl⟩
    exact ⟨rfl, .inl rfl⟩
  | cons slot slots ih =>
    have hall := (argument_restores hbody levels slot).bind (fun a => ih.bind
      (fun as => Restores.pure anyKind (a :: as) fun _ k => Tier.goesOn .comparison k = false) (by
        rintro as _ _ us ⟨rfl, rfl⟩ hus
        exact hus)) (by
      rintro a _ _ us ⟨as, ts, _, rfl, ⟨_, hstart⟩, rfl, rfl⟩ hus
      change Tier.goesOn .comparison _ = false
      rw [List.append_nil]
      rcases hstart with rfl | hstart
      · exact hus
      · rw [nextKind_append rfl hstart]
        exact Tier.goesOn_eq_false_of_startsExpr (Tier.startsExpr_of_opensOperand hstart))
    refine Restores.mono hall ?_ fun _ _ => id
    rintro _ _ ⟨a, ts, _, rfl, ⟨rfl, hopens⟩, as, us, _, rfl, ⟨rfl, _⟩, rfl, rfl⟩
    refine ⟨by rw [List.append_nil]; rfl, .inr ?_⟩
    rw [nextKind_append rfl hopens]
    exact hopens

/-! ### Statements -/

section Forms

variable {first : Token}

theorem command_restores (levels : Nat) {slots : List Slot}
    (hfirst : first.kind.statementForm? = some (.command slots)) :
    Restores anyKind (do return Statement.command first (← arguments levels body slots))
      (do return Statement.command first (← arguments levels body slots))
      ((Layout.sentence place (.command slots)).opened first) := by
  refine (arguments_restores hbody levels slots).map ?_ ?_
  · rintro as _ ⟨rfl, _⟩
    exact ⟨rfl, hfirst⟩
  · rintro as k ⟨_, hgoesOn, _⟩
    exact hgoesOn

omit hbody in
theorem setPosition_restores (levels : Nat)
    (hfirst : first.kind.statementForm? = some .setPosition) :
    Restores anyKind (do
        let target ← expect (.keyword .pos)
        return Statement.setPosition first target (← expr levels))
      (do
        let target ← expect (.keyword .pos)
        return Statement.setPosition first target (← expr levels))
      ((Layout.sentence place .setPosition).opened first) := by
  refine ((expect_restores (by simp)).bind (fun target => (expr_restores place levels).bind
    (fun value => Restores.pure anyKind _ _) ?_) ?_).mono ?_ fun _ _ => id
  · rintro value _ _ us ⟨rfl, rfl⟩ ⟨_, hgoesOn, _⟩
    exact hgoesOn
  · exact fun _ _ _ _ _ _ => trivial
  · rintro _ _ ⟨_, _, _, rfl, ⟨target, _, rfl, rfl⟩, value, _, _, rfl, ⟨rfl, _⟩, rfl, rfl⟩
    refine ⟨?_, hfirst⟩
    rw [List.append_nil]
    rfl

omit hbody in
theorem call_restores (levels : Nat) (hfirst : first.kind.statementForm? = some .call) :
    Restores anyKind (do return Statement.call first (← many Kind.startsExpr (expr levels)))
      (do return Statement.call first (← many Kind.startsExpr (expr levels)))
      ((Layout.sentence place .call).opened first) := by
  refine (manyExpr_restores place levels).map ?_ ?_
  · rintro es _ rfl
    exact ⟨rfl, hfirst⟩
  · rintro es k ⟨hstop, hgoesOn, _⟩
    exact ⟨hstop, hgoesOn⟩

theorem to_restores (hfirst : first.kind.statementForm? = some (.definition .to)) :
    Restores anyKind (definition body first .to) (definition body first .to)
      ((Layout.sentence place (.definition .to)).opened first) := by
  have hend : (Kind.keyword .end_) ≠ .eof := by simp
  refine ((expect_restores (by simp)).bind (fun name => (takeMany_restores (by simp)).bind
    (fun parameters => (hbody .procedure).bind (fun statements => (expect_restores hend).bind
    (fun closing => Restores.pure anyKind _ _) ?_) ?_) ?_) ?_).mono ?_ fun _ _ => id
  · exact fun _ _ _ _ _ _ => trivial
  · rintro statements _ _ us ⟨_, _, _, rfl, ⟨closing, hclosing, rfl, rfl⟩, rfl, rfl⟩ _
    exact hclosing
  · rintro parameters _ _ us ⟨statements, ts, _, rfl, ⟨_, hstart⟩, _, _, _, rfl,
      ⟨closing, hclosing, rfl, rfl⟩, rfl, rfl⟩ _ hcolon
    rcases hstart with rfl | hstart
    · change closing.kind = .colonName at hcolon
      rw [hclosing] at hcolon
      cases hcolon
    · rw [List.append_assoc, nextKind_append rfl hstart] at hcolon
      rw [hcolon] at hstart
      cases hstart
  · exact fun _ _ _ _ _ _ => trivial
  · rintro _ _ ⟨_, _, _, rfl, ⟨name, _, rfl, rfl⟩, parameters, _, _, rfl, rfl, statements, _, _, rfl,
      ⟨rfl, _⟩, _, _, _, rfl, ⟨closing, _, rfl, rfl⟩, rfl, rfl⟩
    exact ⟨rfl, hfirst⟩

theorem define_restores (hfirst : first.kind.statementForm? = some (.definition .define)) :
    Restores anyKind (definition body first .define) (definition body first .define)
      ((Layout.sentence place (.definition .define)).opened first) := by
  let opening : Token := ⟨⟨.leftBracket, "["⟩, place⟩
  let closing : Token := ⟨⟨.rightBracket, "]"⟩, place⟩
  have hopening : opening.kind ≠ .eof := by simp [opening]
  have hclosing : closing.kind ≠ .eof := by simp [closing]
  have hname : Kind.name ≠ .eof := by simp
  have hword : Kind.word ≠ .eof := by simp
  have hend : (Kind.keyword .end_) ≠ .eof := by simp
  have htail (name : Option Token) (parameters : List Token) (statements : List Statement) :
      Restores anyKind (do
          let final ← takeIf (.keyword .end_)
          return Statement.definition .define first name parameters statements final)
        (do
          let final ← takeIf (.keyword .end_)
          return Statement.definition .define first name parameters statements final)
        ⟨fun st ts => ∃ final, st = .definition .define first name parameters statements final ∧
          ts = final.toList, (Layout.sentence place (.definition .define)).follows⟩ := by
    refine (takeIf_restores hend).map ?_ ?_
    · rintro final _ rfl
      exact ⟨final, rfl, rfl⟩
    · rintro final k ⟨_, _, hopen⟩ rfl
      exact hopen rfl
  have hbodies (name : Option Token) (parameters : List Token) := (block_restores hbody).bind
    (fun statements => expect_bind_restores hclosing (htail name parameters statements))
    fun _ _ _ _ _ _ => trivial
  have hparameters (name : Option Token) := (takeMany_restores hname).bind
    (fun parameters => expect_bind_restores hclosing (hbodies name parameters)) (by
      rintro parameters _ _ us ⟨_, rfl, _⟩ _ hkind
      cases hkind)
  have hall := (expect_restores hword).bind (fun name => expect_bind_restores hopening
    (expect_bind_restores hopening (hparameters name))) fun _ _ _ _ _ _ => trivial
  refine Restores.mono hall ?_ fun _ _ => id
  rintro _ _ ⟨_, _, _, rfl, ⟨name, _, rfl, rfl⟩, _, rfl, _, rfl, parameters, _, _, rfl, rfl, _, rfl,
    statements, _, _, rfl, rfl, _, rfl, final, rfl, rfl⟩
  refine ⟨?_, hfirst⟩
  simp [Statement.printed, Token.inBrackets, opening, closing]

omit hbody in
theorem wordThenValue_restores (levels : Nat) {form : BindingForm} (hform : form ≠ .name)
    (hfirst : first.kind.statementForm? = some (.binding form)) :
    Restores anyKind (do
        let name ← expect .word
        let value ← expr levels
        return Statement.binding form first name value)
      (do
        let name ← expect .word
        let value ← expr levels
        return Statement.binding form first name value)
      ((Layout.sentence place (.binding form)).opened first) := by
  refine ((expect_restores (by simp)).bind (fun name => (expr_restores place levels).bind
    (fun value => Restores.pure anyKind _ _) ?_) ?_).mono ?_ fun _ _ => id
  · rintro value _ _ us ⟨rfl, rfl⟩ ⟨_, hgoesOn, _⟩
    exact hgoesOn
  · exact fun _ _ _ _ _ _ => trivial
  · rintro _ _ ⟨_, _, _, rfl, ⟨name, _, rfl, rfl⟩, value, _, _, rfl, ⟨rfl, _⟩, rfl, rfl⟩
    refine ⟨?_, hfirst⟩
    rw [List.append_nil]
    cases form with
    | name => exact absurd rfl hform
    | make | localmake => rfl

omit hbody in
theorem binding_restores (levels : Nat) {form : BindingForm}
    (hfirst : first.kind.statementForm? = some (.binding form)) :
    Restores anyKind (binding levels first form) (binding levels first form)
      ((Layout.sentence place (.binding form)).opened first) := by
  cases form with
  | name =>
    have hword : Kind.word ≠ .eof := by simp
    refine ((expr_restores place levels).bind (fun value => (expect_restores hword).bind
      (fun name => Restores.pure anyKind _ _) ?_) ?_).mono ?_ fun _ _ => id
    · exact fun _ _ _ _ _ _ => trivial
    · rintro value _ _ us ⟨_, _, _, rfl, ⟨name, hname, rfl, rfl⟩, rfl, rfl⟩ _
      change Tier.goesOn .comparison name.kind = false
      rw [hname]
      rfl
    · rintro _ _ ⟨value, _, _, rfl, ⟨rfl, _⟩, _, _, _, rfl, ⟨name, _, rfl, rfl⟩, rfl, rfl⟩
      exact ⟨rfl, hfirst⟩
  | make => exact wordThenValue_restores levels (by simp) hfirst
  | localmake => exact wordThenValue_restores levels (by simp) hfirst

theorem loop_restores (levels : Nat) {form : LoopForm}
    (hfirst : first.kind.statementForm? = some (.loop form)) :
    Restores anyKind (loop levels body first form) (loop levels body first form)
      ((Layout.sentence place (.loop form)).opened first) := by
  let opening : Token := ⟨⟨.leftBracket, "["⟩, place⟩
  let closing : Token := ⟨⟨.rightBracket, "]"⟩, place⟩
  have hopening : opening.kind ≠ .eof := by simp [opening]
  have hclosing : closing.kind ≠ .eof := by simp [closing]
  have hname : Kind.name ≠ .eof := by simp
  have hbounds : form.bounds.least ≤ form.bounds.most := by cases form <;> decide
  have hbodies (counter : Option Token) (bounds : List Expr) := (block_restores hbody).bind
    (fun statements => Restores.pure anyKind
      (Statement.loop form first counter bounds statements)
      (Layout.sentence place (.loop form)).follows) fun _ _ _ _ _ _ => trivial
  have hinputs (counter : Option Token) := (inputs_restores place hbounds levels).bind
    (fun bounds => expect_bind_restores hclosing (hbodies counter bounds)) (by
      rintro bounds _ _ us ⟨_, rfl, _⟩ _
      exact ⟨rfl, rfl⟩)
  have hall := expect_bind_restores hopening ((expect_restores hname).bind hinputs
    fun _ _ _ _ _ _ => trivial)
  refine Restores.mono hall ?_ fun _ _ => id
  rintro _ _ ⟨_, rfl, _, _, _, rfl, ⟨counter, _, rfl, rfl⟩, bounds, _, _, rfl, rfl, _, rfl,
    statements, _, _, rfl, rfl, rfl, rfl⟩
  refine ⟨?_, hfirst⟩
  simp [Statement.printed, Token.inBrackets, opening, closing]

end Forms

theorem statementOf_restores (levels : Nat) (form : StatementForm) :
    Restores (·.statementForm? = some form) (statementOf levels body form)
      (statementOf levels body form) (.sentence place form) := by
  refine take_keep_restores (by simp [Kind.statementForm?]) fun first hfirst => ?_
  cases form with
  | command slots => exact command_restores hbody levels hfirst
  | setPosition => exact setPosition_restores levels hfirst
  | definition form =>
    rcases form with _ | _
    · exact to_restores hbody hfirst
    · exact define_restores hbody hfirst
  | binding form => exact binding_restores levels hfirst
  | loop form => exact loop_restores hbody levels hfirst
  | call => exact call_restores levels hfirst

theorem statement_restores (levels : Nat) :
    Restores (·.startsStatement = true) (statement levels body) (statement levels body)
      (.statement place (·.startsStatement = true)) := by
  refine Restores.currentKind_bind fun kind hkind => ?_
  obtain ⟨form, hform⟩ := Option.isSome_iff_exists.mp hkind
  rw [hform, Option.getD_some]
  have hstarts : ∀ k : Kind, k.statementForm? = some form → k.startsStatement = true :=
    fun k hk => by simp [Kind.startsStatement, hk]
  have hsentence : Restores (· = kind) (statementOf levels body form)
      (statementOf levels body form) (.sentence place form) :=
    (statementOf_restores hbody levels form).of_start fun _ h => h ▸ hform
  have heof : ¬ Kind.eof.statementForm? = some form := by
    intro h
    cases hstarts _ h
  refine (hsentence.redirect_of_kind (·.statementForm? = some form) heof (fun _ _ h => h.2)
    ?_).mono ?_ fun _ _ => id
  · intro s hcurrent
    change outcome (statementOf levels body (s.current.kind.statementForm?.getD .call)) s = _
    rw [hcurrent, Option.getD_some]
  · rintro st ts ⟨hts, hkind⟩
    exact ⟨hts, hstarts _ hkind⟩

end Body

/-- A statement that would take a closing keyword stands before none. -/
theorem kind_ne_end_of_isOpen {levels : Nat} {body : Body} {s : State}
    (h : (outcome (statement levels body) s).1.isOpen = true) :
    (outcome (statement levels body) s).2.current.kind ≠ .keyword .end_ := by
  change (outcome (statementOf levels body (s.current.kind.statementForm?.getD .call)) s).1.isOpen =
    true at h
  change (outcome (statementOf levels body
    (s.current.kind.statementForm?.getD .call)) s).2.current.kind ≠ _
  generalize s.current.kind.statementForm?.getD .call = form at h ⊢
  rcases form with slots | _ | (_ | _) | (_ | _ | _) | form | _
  case definition.define =>
    obtain ⟨t, build, hstatement, hclosed⟩ : ∃ (t : State) (build : Option Token → Statement),
        outcome (statementOf levels body (.definition .define)) s =
            (build (outcome (takeIf (.keyword .end_)) t).1,
              (outcome (takeIf (.keyword .end_)) t).2) ∧
          ∀ closing, (build (some closing)).isOpen = false := ⟨_, _, rfl, fun _ => rfl⟩
    rw [hstatement, outcome_takeIf] at h ⊢
    split_ifs at h ⊢ with hend
    · rw [hclosed] at h
      cases h
    · exact hend
  all_goals cases h

/-! ### Sequences -/

theorem startsExpr_closer (scope : Scope) : scope.closer.startsExpr = false := by
  cases scope <;> rfl

theorem startsStatement_closer (scope : Scope) : scope.closer.startsStatement = false := by
  cases scope <;> rfl

theorem goesOn_closer (tier : Tier) (scope : Scope) : tier.goesOn scope.closer = false := by
  cases tier <;> cases scope <;> rfl

theorem resume_restores (scope : Scope) :
    Restores anyKind (resume scope) (resume scope)
      ⟨fun _ ts => ts = [], fun _ k => scope.continues k = true⟩ where
  passes := (resume_reads scope).passes
  restores s _ _ _ := by
    refine ⟨[], rfl, fun s' us hclear hus => ?_⟩
    rw [resume_stays (by rw [hclear.kind]; exact hus)]
    exact ⟨rfl, hclear⟩

section Sequence

variable {levels : Nat} {body : Body} (hreads : ∀ scope, Reads anyKind (body scope) .sentences)
  (hbody : ∀ scope, Restores anyKind (body scope) (body scope) (.sentences place scope))

/-- What stands behind a statement of a sequence: another one, or the end of the sequence. -/
def Layout.item (place : Position) (scope : Scope) : Layout Statement where
  spells := (Layout.statement place (·.startsStatement = true)).spells
  follows st k := (Layout.statement place (·.startsStatement = true)).follows st k ∧
    scope.continues k = true

include hbody in
theorem item_restores (scope : Scope) :
    Restores (·.startsStatement = true) (item scope (statement levels body))
      (item scope (statement levels body)) (.item place scope) := by
  have hend (st : Statement) := (resume_restores scope).bind
    (fun _ => Restores.pure anyKind st (Layout.item place scope).follows) (by
      rintro _ _ _ us ⟨rfl, rfl⟩ hus
      exact hus.2)
  refine Restores.mono ((statement_restores hbody levels).bind hend ?_) ?_ fun _ _ => id
  · rintro st _ _ us ⟨_, _, _, rfl, rfl, rfl, rfl⟩ hus
    exact hus.1
  · rintro _ _ ⟨st, ts, _, rfl, hts, _, _, _, rfl, rfl, rfl, rfl⟩
    rw [List.append_nil, List.append_nil]
    exact hts

theorem item_follows_of_startsStatement (scope : Scope) (st : Statement) {k : Kind}
    (h : k.startsStatement = true) : (Layout.item place scope).follows st k := by
  have hstarts := Kind.startsExpr_of_endsExpr (Kind.endsExpr_of_startsStatement h)
  refine ⟨⟨hstarts, Tier.goesOn_eq_false_of_startsStatement h, ?_⟩, ?_⟩
  · rintro _ rfl
    cases h
  · exact scope.continues_of_startsStatement h

include hreads in
/-- The last statement of a sequence does not wait for a closing keyword that ends it. -/
theorem item_follows_of_last (place : Position) (scope : Scope) {s t : State} {ss : List Statement}
    (h : Turns Kind.startsStatement (item scope (statement levels body)) s ss t) (hs : s.Sound)
    (hclean : t.errors = []) (hend : t.current.kind = scope.closer) :
    ∀ st ∈ ss.getLast?, (Layout.item place scope).follows st scope.closer := by
  have hreads' : Reads (·.startsStatement = true) (item scope (statement levels body)) .sentence :=
    item_reads (statement_reads hreads levels)
  have hopen := h.last (P := fun st t => st.isOpen = true → t.current.kind ≠ .keyword .end_)
    (fun s hs hk hclean hisOpen => ?_) hreads' hs hclean
  · intro st hst
    have hne := hopen st hst
    rw [hend] at hne
    refine ⟨⟨startsExpr_closer scope, goesOn_closer _ scope, hne⟩, ?_⟩
    simp [Scope.continues]
  · obtain ⟨_, hpassage⟩ := (statement_reads hreads levels).passes s hs hk
    have hne := kind_ne_end_of_isOpen hisOpen
    rcases resume_cases scope (outcome (statement levels body) s).2 with ⟨_, hsame⟩ | hastray
    · change (outcome (resume scope) (outcome (statement levels body) s).2).2.current.kind ≠ _
      rw [hsame]
      exact hne
    · exact absurd hclean (hastray.errors_ne_nil (hpassage.sound hs))

include hreads hbody in
theorem sequence_restores (scope : Scope) :
    Restores anyKind (sequence scope (statement levels body))
      (sequence scope (statement levels body)) (.sentences place scope) where
  passes := (sequence_reads (statement_reads hreads levels)).passes
  restores s hs _ hclean := by
    have hend := sequence_stops (statement_reads hreads levels) hs hclean
    obtain ⟨_, hresume⟩ := (resume_reads scope).passes s hs trivial
    have hs₁ := hresume.sound hs
    obtain ⟨ss, hbuilt, hturns, _, _⟩ := collect_turns Kind.startsStatement
      (item scope (statement levels body)) (outcome (resume scope) s).2.rest []
      (outcome (resume scope) s).2
    have hbuilt' : (outcome (sequence scope (statement levels body)) s).1 = ss := hbuilt
    have hlast := item_follows_of_last hreads place scope hturns hs₁ hclean hend
    obtain ⟨ts, hts, hrebuilds⟩ := rebuilds_many (item_restores hbody scope) rfl (fun _ _ h => h.2)
      (fun st _ h => item_follows_of_startsStatement scope st h) hturns hs₁ hclean
    have hstart : ts = [] ∨ (nextKind ts).startsStatement = true := by
      cases hts with
      | nil => exact .inl rfl
      | cons hhead _ =>
        refine .inr ?_
        rw [nextKind_append rfl hhead.2]
        exact hhead.2
    rw [hbuilt']
    refine ⟨ts, ⟨?_, hstart⟩, fun s' us hclear hus => ?_⟩
    · obtain rfl := eq_flatMap_of_each (fun _ _ h => h.1) hts
      exact (Statement.printedAll_eq place ss).symm
    · change nextKind us = scope.closer at hus
      have hcontinues : scope.continues s'.current.kind = true := by
        rw [hclear.kind]
        rcases hstart with rfl | hstart
        · rw [List.nil_append, hus]
          simp [Scope.continues]
        · rw [nextKind_append rfl hstart, Scope.continues, hstart]
          rfl
      change (outcome (many Kind.startsStatement (item scope (statement levels body)))
          (outcome (resume scope) s').2).1 = ss ∧
        Clear (outcome (many Kind.startsStatement (item scope (statement levels body)))
          (outcome (resume scope) s').2).2 us
      rw [resume_stays hcontinues]
      refine hrebuilds s' us hclear ?_
      rw [hus]
      exact ⟨startsStatement_closer scope, hlast⟩

end Sequence

theorem statements_restores (place : Position) (levels : Nat) (scope : Scope) :
    Restores anyKind (statements levels scope) (statements levels scope)
      (.sentences place scope) := by
  induction levels generalizing scope with
  | zero => exact .of_astray (statementsTooDeep_astray scope)
  | succ levels ih => exact (sequence_restores (statements_reads levels) ih scope).nested

end Parser

end LogoServer
