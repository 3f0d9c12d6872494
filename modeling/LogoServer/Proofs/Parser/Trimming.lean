import LogoServer.Proofs.Parser.Tracking
import Mathlib.Tactic

/-! Every function of the parser, cut off at a lower nesting limit, keeps beside itself and builds
the tree that is trimmed to the levels left to it. -/
namespace LogoServer.Parser

open Grammar

variable {α : Type} {c : Cut} {levels : Nat}

/-! ### Literal lists -/

/-- A tree that keeps one token alone. -/
theorem take_return_tracks {R : α → α → Prop} {start : Kind → Prop} {build : Token → α}
    {C : α → Prop} (h : ∀ t, R (build t) (build t)) :
    Tracks c levels C R start (do return build (← take)) (do return build (← take)) :=
  take_tracks.map (fun _ _ => trivial) fun t _ ht => ht ▸ h t

section Inner

variable {inner inner' : Parser Datum}
  (hinner : Tracks c levels anything (Datum.Trims levels) (· = .leftBracket) inner inner')
include hinner

theorem datum_tracks :
    Tracks c levels anything (Datum.Trims levels) anyKind (datum inner) (datum inner') := by
  refine .currentKind_bind fun k _ => ?_
  split
  · exact hinner
  · exact take_return_tracks .number
  · exact take_return_tracks .word
  · exact take_return_tracks .atom

theorem bracketed_tracks [Grows inner] :
    Tracks c levels anything (Datum.AllTrim levels) (· = .leftBracket) (bracketed inner)
      (bracketed inner') := by
  refine take_tracks.next fun _ => ?_
  refine (many_tracks ((datum_tracks hinner).of_start fun _ _ => trivial)).bind
    (fun _ _ _ _ _ => trivial) fun items items' hitems => ?_
  exact (expect_tracks _).next fun _ => .pure (.of_forall₂ hitems)

end Inner

theorem datumTooDeep_quiet {s : State} (hs : s.Mild) :
    (outcome datumTooDeep s).2.eof = s.eof ∧ (outcome datumTooDeep s).2.Mild := by
  have hquiet := skipConstruct_quiet (outcome complainTooDeep s).2
  exact ⟨hquiet.eof.trans (eof_complainTooDeep s), hquiet.mild (complainTooDeep_mild hs)⟩

/-- A list beyond the levels is passed over up to its own bracket. -/
theorem datumTooDeep_tracks {inner : Parser Datum} {P : Datum → Prop} {l : Nat}
    (hreads : Reads (· = .leftBracket) inner .element) (hnests : Nests l P inner) :
    Tracks c 0 anything (Datum.Trims 0) (· = .leftBracket) inner datumTooDeep := by
  refine Tracks.of_skip hreads hnests (fun _ => datumTooDeep_quiet) ?_
  intro s s' ts hbeside hk _ _ hts hrest
  have hkind : s'.current.kind = .leftBracket := hbeside.current_eq ▸ hk
  change Element (outcome inner s).1 ts at hts
  change (outcome inner s).1.Trims 0 (.atom (outcome complainTooDeep s').2.current) ∧
    (outcome skipConstruct (outcome complainTooDeep s').2).2.rest = _
  rw [current_complainTooDeep]
  generalize (outcome inner s).1 = item at hts ⊢
  cases hts with
  | number ht | word ht => simp [State.current, hrest, ht] at hkind
  | atom ht => simp [State.current, hrest] at hkind; simp [hkind] at ht
  | list hopening hitems hclosing =>
    refine ⟨.cut hkind, ?_⟩
    refine rest_skipConstruct_enclosed (f := .scope .block) ?_ hopening rfl
      (Each.elements_passes hitems (.inl rfl)) hclosing
    rw [rest_complainTooDeep, hrest]
    simp

theorem dataList_tracks (l levels : Nat) :
    Tracks c levels anything (Datum.AllTrim levels) (· = .leftBracket) (dataList l)
      (dataList levels) := by
  induction levels generalizing l with
  | zero =>
    cases l with
    | zero =>
      exact bracketed_tracks (datumTooDeep_tracks datumTooDeep_reads
        (datumTooDeep_nests : Nests 0 _ datumTooDeep))
    | succ l =>
      have hnests : Nests l anything (do return Datum.list (← dataList l)) :=
        (dataList_nests l).map fun _ _ => trivial
      exact bracketed_tracks (datumTooDeep_tracks (list_reads (dataList_reads l)).nested
        hnests.nested)
  | succ levels ih =>
    cases l with
    | zero => exact bracketed_tracks (.of_astray datumTooDeep_astray)
    | succ l =>
      have hlist : Tracks c levels anything (Datum.Trims (levels + 1)) (· = .leftBracket)
          (do return Datum.list (← dataList l)) (do return Datum.list (← dataList levels)) :=
        (ih l).map (fun _ _ => trivial) fun _ _ => .list
      exact bracketed_tracks hlist.nested

/-! ### Operators -/

section Chain

variable {tier : Tier} {operand operand' : Parser Expr}

/-- What is built from a spared chain of links began with a spared expression. -/
theorem isSpared_of_chainLinks {isOperator : Kind → Bool} {budget : List Token} {room : Nat}
    {left : Expr} {s : State}
    (h : (outcome (chainLinks isOperator operand budget room left) s).1.isSpared levels = true) :
    left.isSpared levels = true := by
  induction budget generalizing room left s with
  | nil => exact h
  | cons b budget ih =>
    rw [outcome_chainLinks_cons] at h
    split_ifs at h
    · cases room with
      | zero => exact ih h
      | succ room =>
        have hbinary := ih h
        rw [Expr.isSpared_binary, Bool.and_eq_true] at hbinary
        exact hbinary.1
    · exact h

theorem chainLinks_grows (isOperator : Kind → Bool) (operand : Parser Expr)
    [hoperand : Grows operand] (budget : List Token) (room : Nat) (left : Expr) :
    Grows (chainLinks isOperator operand budget room left) := by
  induction budget generalizing room left with
  | nil => exact inferInstanceAs (Grows (pure left))
  | cons b budget ih =>
    refine ⟨fun s => ?_⟩
    rw [outcome_chainLinks_cons]
    split_ifs
    · have hlink := (Grows.grows (p := take) s).trans (hoperand.grows (outcome take s).2)
      cases room with
      | zero =>
        have hreport := Grows.grows (p := complainTooDeep) (outcome operand (outcome take s).2).2
        exact (hlink.trans hreport).trans ((ih 0 left).grows _)
      | succ room => exact hlink.trans ((ih room _).grows _)
    · exact List.suffix_rfl

/-- A link that the cut parse has no room for is dropped there; it takes the same tokens. -/
theorem chainLinks_tracks [Grows operand] (hreads : Reads anyKind operand (.phrase tier.tighter))
    (hoperand : Tracks c levels (Expr.isSpared levels · = true) (Expr.Trims levels) anyKind operand
      operand')
    (budget : List Token) {room room' : Nat} {left left' : Expr} (hleft : left.Trims levels left')
    (hroom : left'.links tier + room' = levels) :
    Tracks c levels (Expr.isSpared levels · = true) (Expr.Trims levels) anyKind
      (chainLinks tier.joins operand budget room left)
      (chainLinks tier.joins operand' budget room' left') := by
  induction budget generalizing room room' left left' with
  | nil => exact .pure hleft
  | cons b budget ih =>
    intro s s' hbeside _ hjournal hspared
    by_cases hk : tier.joins s.current.kind = true
    · cases room with
      | zero =>
        exact absurd (Cut.errors_eq_nil hjournal)
          (errors_chainLinks hreads hbeside.sound hk b budget left)
      | succ room =>
        have hcurrent := hbeside.current_eq
        rw [outcome_chainLinks_cons, if_pos hk] at hjournal hspared ⊢
        rw [outcome_chainLinks_cons, if_pos (hcurrent ▸ hk)]
        dsimp only at hjournal hspared ⊢
        have hbinary := isSpared_of_chainLinks hspared
        rw [Expr.isSpared_binary, Bool.and_eq_true] at hbinary
        obtain ⟨hright, hbeside'⟩ := hoperand _ _ hbeside.take trivial
          (((chainLinks_grows tier.joins operand budget room _).grows _).trans hjournal) hbinary.2
        have htier := Tier.eq_of_joins hk
        cases room' with
        | zero =>
          have hdrop : left'.links s.current.kind.tier = levels := by rw [htier]; omega
          exact ih (.drop hleft hdrop) hroom _ _ hbeside'.complainTooDeep trivial hjournal hspared
        | succ room' =>
          rw [hcurrent]
          have hlink : left'.links s.current.kind.tier < levels := by rw [htier]; omega
          refine ih (.link hleft hright hlink) ?_ _ _ hbeside' trivial hjournal hspared
          rw [Expr.Within.links_binary hk]
          omega
    · rw [outcome_chainLinks_cons, if_neg hk, outcome_chainLinks_cons,
        if_neg (hbeside.current_eq ▸ hk)]
      exact ⟨hleft, hbeside⟩

theorem chain_tracks [Grows operand] (tier : Tier) (htier : tier ≠ .factor)
    (hreads : Reads anyKind operand (.phrase tier.tighter))
    (hnests : Nests levels (Expr.Within levels tier.tighter) operand')
    (hoperand : Tracks c levels (Expr.isSpared levels · = true) (Expr.Trims levels) anyKind operand
      operand') (l : Nat) :
    Tracks c levels (Expr.isSpared levels · = true) (Expr.Trims levels) anyKind
      (chain tier.joins l operand) (chain tier.joins levels operand') := by
  intro s s' hbeside _ hjournal hspared
  rw [outcome_chain] at hjournal hspared ⊢
  rw [outcome_chain]
  have hgrown := (chainLinks_grows tier.joins operand (outcome operand s).2.rest l
    (outcome operand s).1).grows (outcome operand s).2
  obtain ⟨hfirst, hbeside'⟩ := hoperand s s' hbeside trivial (hgrown.trans hjournal)
    (isSpared_of_chainLinks hspared)
  have hlinks : (outcome operand' s').1.links tier = 0 := by
    refine (hnests s').2.links_eq_zero (.inr ?_)
    cases tier with
    | factor => exact absurd rfl htier
    | product | sum | comparison => decide
  rw [hbeside'.rest]
  exact chainLinks_tracks hreads hoperand _ hfirst (by omega) _ _ hbeside' trivial hjournal hspared

end Chain

section Levels

variable {l : Nat}
  (hoperand : Tracks c levels (Expr.isSpared levels · = true) (Expr.Trims levels) anyKind
    (primary l) (primary levels))
include hoperand

theorem additive_tracks :
    Tracks c levels (Expr.isSpared levels · = true) (Expr.Trims levels) anyKind
      (additiveOver l (primary l)) (additiveOver levels (primary levels)) := by
  have hproduct : Tracks c levels (Expr.isSpared levels · = true) (Expr.Trims levels) anyKind
      (chain Kind.isMultiplicative l (primary l))
      (chain Kind.isMultiplicative levels (primary levels)) :=
    chain_tracks .product (by decide) (primary_reads l) (primary_nests levels) hoperand l
  have hreads : Reads anyKind (chain Kind.isMultiplicative l (primary l)) (.phrase .product) :=
    chain_reads .product (primary_reads l) l
  exact chain_tracks .sum (by decide) hreads (product_nests (primary_nests levels)) hproduct l

theorem comparison_tracks :
    Tracks c levels (Expr.isSpared levels · = true) (Expr.Trims levels) anyKind (expr l)
      (expr levels) :=
  chain_tracks .comparison (by decide) (additiveOver_reads (primary_reads l) l)
    (additiveOver_nests (primary_nests levels)) (additive_tracks hoperand) l

/-! ### Operands -/

theorem query_tracks (arity : Arity) (k : Keyword) :
    Tracks c levels (Expr.isSpared (levels + 1) · = true) (Expr.Trims (levels + 1))
      (· = .keyword k) (query arity (additiveOver l (primary l)))
      (query arity (additiveOver levels (primary levels))) := by
  refine take_tracks.next fun t => ?_
  exact (inputs_tracks (additive_tracks hoperand) arity).map (fun _ => Expr.areSpared_iff.mp)
    fun _ _ hinputs => .query (.of_forall₂ hinputs)

theorem enclosed_tracks :
    Tracks c levels (Expr.isSpared (levels + 1) · = true) (Expr.Trims (levels + 1)) anyKind
      (enclosed (expr l)) (enclosed (expr levels)) := by
  have hinner := comparison_tracks hoperand
  have hgroup {start : Kind → Prop} :
      Tracks c levels (Expr.isSpared (levels + 1) · = true) (Expr.Trims (levels + 1)) start
        (do return .group (← expr l)) (do return .group (← expr levels)) :=
    (hinner.of_start fun _ _ => trivial).map (fun _ h => h) fun _ _ => .group
  refine .currentKind_bind fun kind _ => ?_
  split
  · refine .ite (fun _ => take_tracks.next fun t => ?_) fun _ => hgroup
    exact (many_tracks (hinner.of_start fun _ _ => trivial)).map (fun _ => Expr.areSpared_iff.mp)
      fun _ _ hinputs => .query (.of_forall₂ hinputs)
  · exact hgroup

theorem parenthesized_tracks :
    Tracks c levels (Expr.isSpared (levels + 1) · = true) (Expr.Trims (levels + 1))
      (· = .leftParen) (parenthesized (expr l)) (parenthesized (expr levels)) := by
  refine take_tracks.next fun _ => ?_
  refine (enclosed_tracks hoperand).bind (fun _ _ h => h) fun _ _ he => ?_
  exact (expect_tracks _).next fun _ => .pure he

theorem term_tracks :
    Tracks c levels (Expr.isSpared (levels + 1) · = true) (Expr.Trims (levels + 1)) anyKind
      (term l (primary l)) (term levels (primary levels)) := by
  have hmissing {start : Kind → Prop} {q : Parser Expr} :
      Tracks c levels (Expr.isSpared (levels + 1) · = true) (Expr.Trims (levels + 1)) start
        (missingExpr (primary l)) q :=
    .of_never ((missingExpr_reads (primary_reads l)).of_start fun _ _ => trivial) fun _ _ => id
  refine .currentKind_bind fun kind _ => ?_
  split
  · exact take_return_tracks .number
  · exact take_return_tracks .word
  · exact take_return_tracks .reference
  · exact (dataList_tracks l levels).map (fun _ _ => trivial) fun _ _ => .list
  · exact parenthesized_tracks hoperand
  · rename_i k _
    cases k.queryArity? with
    | none => exact hmissing
    | some arity => exact query_tracks hoperand arity k
  · exact hmissing

end Levels

theorem primaryTooDeep_quiet {s : State} (hs : s.Mild) :
    (outcome primaryTooDeep s).2.eof = s.eof ∧ (outcome primaryTooDeep s).2.Mild := by
  have hquiet := skipConstruct_quiet (outcome complainTooDeep s).2
  rw [outcome_primaryTooDeep]
  dsimp only
  split_ifs
  · exact ⟨hquiet.eof.trans (eof_complainTooDeep s), hquiet.mild (complainTooDeep_mild hs)⟩
  · exact ⟨eof_complainTooDeep s, complainTooDeep_mild hs⟩

/-- A bare reporter is the first token that its operand matches. -/
theorem taken_suffix_primary {l : Nat} {s : State} {k : Keyword} {arity : Arity}
    (hk : s.current.kind = .keyword k) (harity : k.queryArity? = some arity) :
    Note.taken s.current :: Note.entered :: s.journal <:+
      (outcome (primary (l + 1)) s).2.journal := by
  have hterm : outcome (term l (primary l)) (s.afterMarking .entered) =
      outcome (query arity (additiveOver l (primary l))) (s.afterMarking .entered) := by
    have hcurrent : (s.afterMarking .entered).current.kind = .keyword k := hk
    simp only [term, outcome_bind, outcome_currentKind, hcurrent, harity]
  have hinputs := Grows.grows (p := inputs arity (additiveOver l (primary l)))
    (outcome take (s.afterMarking .entered)).2
  change _ <:+ Note.left :: (outcome (term l (primary l)) (s.afterMarking .entered)).2.journal
  rw [hterm]
  exact hinputs.trans (List.suffix_cons _ _)

theorem exists_of_takesInputs {kind : Kind} (h : kind.takesInputs = true) :
    ∃ k arity, kind = .keyword k ∧ k.queryArity? = some arity := by
  cases kind with
  | keyword k =>
    cases harity : k.queryArity? with
    | none => simp [Kind.takesInputs, harity] at h
    | some arity => exact ⟨k, arity, rfl, harity⟩
  | _ => cases h

theorem inputs_eq_nil {k : Keyword} {arity : Arity} {inputs : List Expr}
    (harity : k.queryArity? = some arity) (hnone : (Kind.keyword k).takesInputs = false)
    (hmost : inputs.length ≤ arity.most) : inputs = [] := by
  have hzero : arity.most = 0 := by simpa [Kind.takesInputs, harity] using hnone
  exact List.length_eq_zero_iff.mp (by omega)

/-- What an operand looks like to one who passes over it: a token, a bare reporter before its
inputs, or a part that stands in brackets or in parentheses. -/
inductive Outline : Expr → List Token → Prop
  | token {e : Expr} {t : Token} (ht : t.kind.closer? = none) : Outline e [t]
  | reporter {e : Expr} {t : Token} {k : Keyword} {arity : Arity} {inputs : List Expr}
      {ts : List Token} (ht : t.kind = .keyword k) (harity : k.queryArity? = some arity)
      (hmost : inputs.length ≤ arity.most) (hinputs : Phrases .sum inputs ts) : Outline e (t :: ts)
  | enclosed {e : Expr} {f : Fence} {opening closing : Token} {ts : List Token}
      (hopening : opening.kind = f.opener) (hcloser : f.opener.closer? = some f.closer)
      (hpasses : e.isSpared 0 = true → f.Passes ts) (hclosing : closing.kind = f.closer) :
      Outline e (opening :: (ts ++ [closing]))

theorem outline_of_phrase {e : Expr} {ts : List Token} (h : Phrase .factor e ts) :
    Outline e ts := by
  -- The inputs of a reporter are no operands of this tier, so nothing is to be shown of them.
  refine @Phrase.rec (fun tier e ts _ => tier = .factor → Outline e ts) (fun _ _ _ _ => True)
    ?number ?word ?reference ?list ?query ?enclosedQuery ?group ?single ?link trivial
    (fun _ _ _ _ => trivial) .factor e ts h rfl
  case number | word | reference =>
    intro t ht _
    exact .token (by rw [ht]; rfl)
  case list =>
    intro opening closing items ts hopening hitems hclosing _
    exact .enclosed (f := .scope .block) hopening rfl
      (fun _ => Each.elements_passes hitems (.inl rfl)) hclosing
  case query =>
    intro t k arity inputs ts ht harity _ hmost hinputs _ _
    exact .reporter ht harity hmost hinputs
  case enclosedQuery =>
    intro opening t closing k inputs ts hopening ht hk hinputs hclosing _ _
    rw [← List.cons_append]
    refine .enclosed (f := .parens) hopening rfl (fun hspared => ?_) hclosing
    refine (hinputs.passes (.inr ?_)).behind ht (notMem_kinds_of_isParenthesizedQuery hk)
    simpa [Expr.isSpared] using hspared
  case group =>
    intro opening closing inner ts hopening hinner hclosing _ _
    refine .enclosed (f := .parens) hopening rfl (fun hspared => ?_) hclosing
    refine hinner.passes (.inr ?_)
    simpa [Expr.isSpared] using hspared
  case single =>
    intro tier e ts _ ih htier
    exact ih (by rw [htier]; rfl)
  case link =>
    intro tier left right operator ts us _ hoperator _ _ _ htier
    rw [htier] at hoperator
    cases hoperator

/-- A spared operand is passed over as a whole, unless it is a bare reporter that takes inputs. -/
theorem rest_skipConstruct_phrase {e : Expr} {ts rest : List Token} {s : State}
    (h : Phrase .factor e ts) (hspared : e.isSpared 0 = true)
    (hbare : ∀ t ∈ ts.head?, t.kind.takesInputs = false) (hrest : s.rest = ts ++ rest) :
    (outcome skipConstruct s).2.rest = rest := by
  cases outline_of_phrase h with
  | token ht => exact rest_skipConstruct_token hrest ht
  | reporter ht harity hmost hinputs =>
    have hnone := hbare _ rfl
    rw [ht] at hnone
    obtain rfl := inputs_eq_nil harity hnone hmost
    cases hinputs
    exact rest_skipConstruct_token hrest (by rw [ht]; rfl)
  | enclosed hopening hcloser hpasses hclosing =>
    refine rest_skipConstruct_enclosed ?_ hopening hcloser (hpasses hspared) hclosing
    simpa using hrest

/-- No bare reporter that takes inputs is an operand beyond the levels. -/
theorem takesInputs_of_primary {l : Nat} {s : State} (hdepth : depth s.journal = c.limit)
    (hs : s.Sound) (hjournal : (outcome (primary l) s).2.journal <:+ c.journal) :
    s.current.kind.takesInputs = false := by
  by_contra hne
  obtain ⟨k, arity, hk, harity⟩ := exists_of_takesInputs (by simpa using hne)
  cases l with
  | zero =>
    exact absurd (Cut.errors_eq_nil hjournal) ((primaryTooDeep_astray s).errors_ne_nil hs)
  | succ l =>
    exact hne (takesInputs_of_suffix c.spares ((taken_suffix_primary hk harity).trans hjournal)
      hdepth)

theorem primaryTooDeep_tracks (l : Nat) :
    Tracks c 0 (Expr.isSpared 0 · = true) (Expr.Trims 0) anyKind (primary l) primaryTooDeep := by
  refine Tracks.of_skip (primary_reads l) (primary_nests l) (fun _ => primaryTooDeep_quiet) ?_
  intro s s' ts hbeside _ hjournal hspared hts hrest
  obtain ⟨t, us, rfl, hstarts⟩ := hts.exists_start
  have hcurrent : s'.current = t := by simp [State.current, hrest]
  have hbare := takesInputs_of_primary hbeside.depth hbeside.sound hjournal
  rw [← hbeside.current_eq, hcurrent] at hbare
  rw [outcome_primaryTooDeep, current_complainTooDeep, hcurrent, if_pos hstarts]
  refine ⟨.cut _, rest_skipConstruct_phrase hts hspared (by simpa using hbare) ?_⟩
  rw [rest_complainTooDeep, hrest]

/-- An operand is trimmed to the levels that are left. -/
theorem primary_tracks (l levels : Nat) :
    Tracks c levels (Expr.isSpared levels · = true) (Expr.Trims levels) anyKind (primary l)
      (primary levels) := by
  induction levels generalizing l with
  | zero => exact primaryTooDeep_tracks l
  | succ levels ih =>
    cases l with
    | zero => exact .of_astray primaryTooDeep_astray
    | succ l => exact (term_tracks (ih l)).nested

theorem expr_tracks (l levels : Nat) :
    Tracks c levels (Expr.isSpared levels · = true) (Expr.Trims levels) anyKind (expr l)
      (expr levels) :=
  comparison_tracks (primary_tracks l levels)

/-! ### Statements -/

theorem takeMany_tracks (more : Kind → Bool) :
    Tracks c levels anything Eq anyKind (many more take) (many more take) := by
  intro s s' hbeside hk hjournal _
  obtain ⟨hsame, hbeside'⟩ := many_tracks take_tracks s s' hbeside hk hjournal fun _ _ => trivial
  exact ⟨List.forall₂_eq_eq_eq ▸ hsame, hbeside'⟩

section Body

variable {l : Nat}
  (hbody : ∀ scope, Tracks c levels (Statement.bodySpared scope levels · = true)
    (Statement.BodyTrims levels) anyKind (statements l scope) (statements levels scope))
include hbody

theorem block_tracks :
    Tracks c levels (Statement.bodySpared .block levels · = true) (Statement.BodyTrims levels)
      anyKind (block (statements l)) (block (statements levels)) := by
  refine (expect_tracks _).next fun _ => ?_
  refine (hbody .block).bind (fun _ _ h => h) fun _ _ hstatements => ?_
  exact (expect_tracks _).next fun _ => .pure hstatements

theorem argument_tracks (slot : Slot) :
    Tracks c levels (Argument.isSpared levels · = true) (Argument.Trims levels) anyKind
      (argument l (statements l) slot) (argument levels (statements levels) slot) := by
  cases slot with
  | expr => exact (expr_tracks l levels).map (fun _ h => h) fun _ _ => .expr
  | block => exact (block_tracks hbody).map (fun _ h => h) fun _ _ => .block

theorem arguments_tracks (slots : List Slot) :
    Tracks c levels (Argument.areSpared levels · = true) (Argument.AllTrim levels) anyKind
      (arguments l (statements l) slots) (arguments levels (statements levels) slots) := by
  induction slots with
  | nil => exact .pure .nil
  | cons slot slots ih =>
    refine (argument_tracks hbody slot).bind (fun a s h => (Bool.and_eq_true_iff.mp h).1) ?_
    intro a a' ha
    exact ih.map (fun as h => (Bool.and_eq_true_iff.mp h).2) fun _ _ => .cons ha

set_option synthInstance.maxSize 256 in
theorem definition_tracks (keyword : Token) (form : DefinitionForm) :
    Tracks c levels (Statement.isSpared levels · = true) (Statement.Trims levels) anyKind
      (definition (statements l) keyword form) (definition (statements levels) keyword form) := by
  match form with
  | .to =>
    refine (expect_tracks _).next fun name => ?_
    refine (takeMany_tracks _).next fun parameters => ?_
    refine (hbody .procedure).bind (fun _ _ h => h) fun _ _ hstatements => ?_
    refine (expect_tracks _).next fun closing => ?_
    exact .pure (.definition hstatements)
  | .define =>
    refine (expect_tracks _).next fun name => ?_
    refine (expect_tracks _).next fun _ => (expect_tracks _).next fun _ => ?_
    refine (takeMany_tracks _).next fun parameters => ?_
    refine (expect_tracks _).next fun _ => ?_
    refine (block_tracks hbody).bind (fun _ _ h => h) fun _ _ hstatements => ?_
    refine (expect_tracks _).next fun _ => (takeIf_tracks _).next fun closing => ?_
    exact .pure (.definition hstatements)

omit hbody in
theorem binding_tracks (keyword : Token) (form : BindingForm) :
    Tracks c levels (Statement.isSpared levels · = true) (Statement.Trims levels) anyKind
      (binding l keyword form) (binding levels keyword form) := by
  cases form with
  | name =>
    refine (expr_tracks l levels).bind (fun _ _ h => h) fun _ _ hvalue => ?_
    refine (expect_tracks _).next fun name => ?_
    exact .pure (.binding hvalue)
  | make | localmake =>
    refine (expect_tracks _).next fun name => ?_
    exact (expr_tracks l levels).map (fun _ h => h) fun _ _ => .binding

theorem loop_tracks (keyword : Token) (form : LoopForm) :
    Tracks c levels (Statement.isSpared levels · = true) (Statement.Trims levels) anyKind
      (loop l (statements l) keyword form) (loop levels (statements levels) keyword form) := by
  refine (expect_tracks _).next fun _ => (expect_tracks _).next fun counter => ?_
  refine (inputs_tracks (expr_tracks l levels) _).bind
    (fun _ _ h => Expr.areSpared_iff.mp (Bool.and_eq_true_iff.mp h).1) fun _ _ hbounds => ?_
  refine (expect_tracks _).next fun _ => ?_
  refine (block_tracks hbody).map (fun _ h => (Bool.and_eq_true_iff.mp h).2) fun _ _ h => ?_
  exact .loop (.of_forall₂ hbounds) h

theorem statementOf_tracks (form : StatementForm) :
    Tracks c levels (Statement.isSpared levels · = true) (Statement.Trims levels) anyKind
      (statementOf l (statements l) form) (statementOf levels (statements levels) form) := by
  cases form with
  | command slots =>
    refine take_tracks.next fun first => ?_
    exact (arguments_tracks hbody slots).map (fun _ h => h) fun _ _ => .command
  | setPosition =>
    refine take_tracks.next fun first => (expect_tracks _).next fun target => ?_
    exact (expr_tracks l levels).map (fun _ h => h) fun _ _ => .setPosition
  | definition form =>
    refine take_tracks.next fun first => ?_
    exact definition_tracks hbody first form
  | binding form =>
    refine take_tracks.next fun first => ?_
    exact binding_tracks first form
  | loop form =>
    refine take_tracks.next fun first => ?_
    exact loop_tracks hbody first form
  | call =>
    refine take_tracks.next fun first => ?_
    exact (many_tracks ((expr_tracks l levels).of_start fun _ _ => trivial)).map
      (fun _ => Expr.areSpared_iff.mp) fun _ _ hinputs => .call (.of_forall₂ hinputs)

theorem statement_tracks :
    Tracks c levels (Statement.isSpared levels · = true) (Statement.Trims levels) anyKind
      (statement l (statements l)) (statement levels (statements levels)) :=
  .currentKind_bind fun _ _ => (statementOf_tracks hbody _).of_start fun _ _ => trivial

theorem sequence_tracks (scope : Scope) :
    Tracks c levels (Statement.bodySpared scope (levels + 1) · = true)
      (Statement.BodyTrims (levels + 1)) anyKind
      (sequence scope (statement l (statements l)))
      (sequence scope (statement levels (statements levels))) := by
  have hitem : Tracks c levels (Statement.isSpared levels · = true) (Statement.Trims levels)
      (Kind.startsStatement · = true) (item scope (statement l (statements l)))
      (item scope (statement levels (statements levels))) := by
    refine ((statement_tracks hbody).of_start fun _ _ => trivial).bind (fun _ _ h => h) ?_
    exact fun _ _ hs => (resume_tracks scope).next fun _ => .pure hs
  refine (resume_tracks scope).next fun _ s s' hbeside hk hjournal hspared => ?_
  obtain ⟨hall, hbeside'⟩ := many_tracks hitem s s' hbeside hk hjournal
    (Statement.bodySpared_succ_iff.mp hspared)
  exact ⟨.of_forall₂ hall, hbeside'⟩

end Body

theorem statementsTooDeep_quiet (scope : Scope) {s : State} (hs : s.Mild) :
    (outcome (statementsTooDeep scope) s).2.eof = s.eof ∧
      (outcome (statementsTooDeep scope) s).2.Mild := by
  have hquiet := skip_quiet (closerOffset scope.opener scope.closer 0
    (outcome complainTooDeep s).2.rest) (outcome complainTooDeep s).2
  exact ⟨hquiet.eof.trans (eof_complainTooDeep s), hquiet.mild (complainTooDeep_mild hs)⟩

theorem closerOffset_eq_zero {opener closer : Kind} {s : State} (h : s.current.kind = closer) :
    closerOffset opener closer 0 s.rest = 0 := by
  unfold State.current at h
  cases hrest : s.rest with
  | nil => rfl
  | cons t rest =>
    rw [hrest] at h
    exact if_pos h

/-- A sequence beyond the levels is passed over up to its own closer. -/
theorem statementsTooDeep_tracks (l : Nat) (scope : Scope) :
    Tracks c 0 (Statement.bodySpared scope 0 · = true) (Statement.BodyTrims 0) anyKind
      (statements l scope) (statementsTooDeep scope) := by
  refine Tracks.of_skip (statements_reads l scope) (statements_nests l scope)
    (fun _ => statementsTooDeep_quiet scope) ?_
  intro s s' ts hbeside _ hjournal hspared hts hrest
  have hstops := statements_stops l scope hbeside.sound (Cut.errors_eq_nil hjournal)
  have hpasses : (Fence.scope scope).Passes ts := by
    refine Each.sentences_passes hts ?_
    cases scope with
    | document | block => exact .inl rfl
    | procedure => exact .inr (by simpa [Statement.bodySpared] using hspared)
  refine ⟨.cut _, ?_⟩
  change (outcome complainTooDeep s').2.rest.drop (closerOffset scope.opener scope.closer 0
    (outcome complainTooDeep s').2.rest) = _
  have hoffset := hpasses 0 (outcome (statements l scope) s).2.rest
  rw [Fence.opener, Fence.closer, closerOffset_eq_zero hstops, Nat.add_zero] at hoffset
  rw [rest_complainTooDeep, hrest, hoffset, List.drop_left]

/-- A sequence is trimmed to the levels that are left. -/
theorem statements_tracks (l levels : Nat) (scope : Scope) :
    Tracks c levels (Statement.bodySpared scope levels · = true) (Statement.BodyTrims levels)
      anyKind (statements l scope) (statements levels scope) := by
  induction levels generalizing l scope with
  | zero => exact statementsTooDeep_tracks l scope
  | succ levels ih =>
    cases l with
    | zero => exact .of_astray (statementsTooDeep_astray scope)
    | succ l => exact (sequence_tracks (ih l) scope).nested

end LogoServer.Parser
