import LogoServer.Parser.Expr
import LogoServer.Proofs.Parser.Repetition
import LogoServer.Proofs.Tree.Gathered
import Mathlib.Tactic

/-! Accounts of the parsers of literal lists and expressions. Whatever goes wrong, the events of
what is built tell of matched tokens in order; without a complaint it is derived from them. -/
namespace LogoServer.Parser

open Grammar

variable {α : Type}

namespace Account

def element : Account Datum :=
  ⟨fun item ts => Gathered item.events ts, Element⟩

/-- The elements of a literal list, with the brackets around them. -/
def elements : Account (List Datum) where
  always items ts := Gathered (Datum.eventsOfAll items) ts
  clean items ts := ∃ opening us closing, ts = opening :: (us ++ [closing]) ∧
    opening.kind = .leftBracket ∧ Each Element items us ∧ closing.kind = .rightBracket

def phrase (tier : Tier) : Account Expr :=
  ⟨fun e ts => Gathered e.events ts, Phrase tier⟩

end Account

/-- What an expression of a tier becomes by the links behind it. -/
def Account.extending (tier : Tier) (left : Expr) : Account Expr where
  always e ts := ∀ us, Gathered left.events us → Gathered e.events (us ++ ts)
  clean e ts := ∀ us, Phrase tier left us → Phrase tier e (us ++ ts)

/-- What is built behind a report of the nesting limit, which is never clean. -/
theorem complainTooDeep_reads {p : Parser α} {A : Account α} (hp : Reads anyKind p A) :
    Reads anyKind (complainTooDeep >>= fun _ => p) ⟨A.always, fun _ _ => False⟩ := by
  intro s hs _
  obtain ⟨notes, hpassage, ha, herrors⟩ :=
    hp.after_astray hs (complainTooDeep_astray s) trivial
  exact ⟨notes, hpassage, ha, fun he => absurd he herrors⟩

/-- A tree that keeps one token alone. -/
theorem take_return_reads {start : Kind → Prop} (hstart : ¬ start .eof) {build : Token → α}
    {A : Account α} (halways : ∀ t, start t.kind → A.always (build t) [t])
    (hclean : ∀ t, start t.kind → A.clean (build t) [t]) :
    Reads start (do return build (← take)) A := by
  refine (take_reads start hstart).map ?_ ?_
  · rintro t _ ⟨ht, rfl⟩
    exact halways t ht
  · rintro t _ ⟨ht, rfl⟩
    exact hclean t ht

/-! ### Literal lists -/

theorem datum_reads {inner : Parser Datum} (hinner : Reads (· = .leftBracket) inner .element) :
    Reads (fun kind => (kind != .rightBracket && kind != .eof) = true) (datum inner) .element := by
  refine Reads.currentKind_bind fun k hk => ?_
  split
  · exact hinner
  · exact take_return_reads (by simp) (fun t ht => Gathered.single ht) fun t ht => .number ht
  · exact take_return_reads (by simp) (fun t ht => Gathered.single ht) fun t ht => .word ht
  · rename_i hleft hnumber hword
    have hkind : k ∉ [.number, .word, .leftBracket, .rightBracket, .eof] := by
      simp only [Bool.and_eq_true, bne_iff_ne] at hk
      simp only [List.mem_cons, List.not_mem_nil, or_false, not_or]
      exact ⟨hnumber, hword, hleft, hk⟩
    refine take_return_reads ?_ (fun t _ => Gathered.nil _) fun t ht => .atom (ht ▸ hkind)
    rintro rfl
    simp at hkind

theorem bracketed_reads {inner : Parser Datum} (hinner : Reads (· = .leftBracket) inner .element) :
    Reads (· = .leftBracket) (bracketed inner) .elements := by
  refine ((take_reads _ (by simp)).bind fun _ => (many_reads (datum_reads hinner)).bind fun _ =>
    (expect_reads (by simp)).bind fun _ => .pure _ _).mono ?_ ?_
  · rintro _ ts ⟨opening, us, _, rfl, _, items, vs, _, rfl, hitems, _, ws, _, rfl, _, rfl, rfl⟩
    refine Gathered.behind us (Gathered.before _ ?_)
    rw [Datum.eventsOfAll_eq]
    exact Gathered.flatMap hitems
  · rintro _ ts ⟨opening, _, _, rfl, ⟨hopening, rfl⟩, items, vs, _, rfl, hitems, _, _, _, rfl,
      ⟨closing, hclosing, rfl, rfl⟩, rfl, rfl⟩
    exact ⟨opening, vs, closing, rfl, hopening, hitems, hclosing⟩

theorem datumTooDeep_astray (s : State) : Astray s (outcome datumTooDeep s).2 :=
  (complainTooDeep_astray s).trans fun h => skipConstruct_astray h

theorem datumTooDeep_reads : Reads (· = .leftBracket) datumTooDeep .element :=
  Reads.of_astray (fun s _ => datumTooDeep_astray s) fun _ => Gathered.nil _

theorem list_reads {items : Parser (List Datum)}
    (hitems : Reads (· = .leftBracket) items .elements) :
    Reads (· = .leftBracket) (do return .list (← items)) .element := by
  refine hitems.map (fun _ _ hitems => hitems) ?_
  rintro items _ ⟨opening, us, closing, rfl, hopening, hitems, hclosing⟩
  exact .list hopening hitems hclosing

theorem dataList_reads (levels : Nat) : Reads (· = .leftBracket) (dataList levels) .elements := by
  induction levels with
  | zero => exact bracketed_reads datumTooDeep_reads
  | succ levels ih => exact bracketed_reads (list_reads ih).nested

/-! ### Operators -/

theorem joins_eof (tier : Tier) : tier.joins .eof = false := by
  cases tier <;> rfl

/-- Each link joins one operand to the left of what follows; without room the operand is dropped
and the limit reported. -/
theorem chainLinks_reads {tier : Tier} {operand : Parser Expr}
    (hoperand : Reads anyKind operand (.phrase tier.tighter)) (budget : List Token) (room : Nat)
    (left : Expr) :
    Reads anyKind (chainLinks tier.joins operand budget room left) (.extending tier left) := by
  induction budget generalizing room left with
  | nil =>
    refine (Reads.pure _ _).mono ?_ ?_
    all_goals
      rintro _ ts ⟨rfl, rfl⟩ us hleft
      simpa using hleft
  | cons _ budget ih =>
    refine Reads.currentKind_bind fun k _ => Reads.ite ?_ ?_
    · intro hk
      have hne : ¬ Kind.eof = k := by
        rintro rfl
        rw [joins_eof] at hk
        cases hk
      cases room with
      | zero =>
        refine ((take_reads (· = k) hne).bind fun _ => hoperand.bind fun _ =>
          complainTooDeep_reads (ih 0 left)).mono ?_ ?_
        · rintro e ts ⟨operator, vs, _, rfl, _, right, ws, xs, rfl, _, he⟩ us hleft
          have := he (us ++ vs ++ ws) ((hleft.before vs).before ws)
          simpa using this
        · rintro e ts ⟨_, _, _, rfl, _, _, _, _, rfl, _, hfalse⟩
          exact hfalse.elim
      | succ room =>
        refine ((take_reads (· = k) hne).bind fun operator => hoperand.bind fun right =>
          ih room (.binary left operator right)).mono ?_ ?_
        · rintro e ts ⟨operator, vs, _, rfl, _, right, ws, xs, rfl, hright, he⟩ us hleft
          have := he (us ++ vs ++ ws) ((hleft.before vs).append hright)
          simpa using this
        · rintro e ts ⟨operator, _, _, rfl, ⟨hkind, rfl⟩, right, ws, xs, rfl, hright, he⟩ us hleft
          have := he (us ++ operator :: ws) (.link hleft (hkind ▸ hk) hright)
          simpa using this
    · intro _
      refine (Reads.pure _ _).mono ?_ ?_
      all_goals
        rintro _ ts ⟨rfl, rfl⟩ us hleft
        simpa using hleft

theorem chain_reads (tier : Tier) {operand : Parser Expr}
    (hoperand : Reads anyKind operand (.phrase tier.tighter)) (levels : Nat) :
    Reads anyKind (chain tier.joins levels operand) (.phrase tier) := by
  refine (hoperand.bind fun first => Reads.get_bind fun s =>
    chainLinks_reads hoperand s.rest levels first).mono ?_ ?_
  · rintro e ts ⟨first, us, vs, rfl, hfirst, he⟩
    exact he us hfirst
  · rintro e ts ⟨first, us, vs, rfl, hfirst, he⟩
    exact he us (.single hfirst)

theorem additiveOver_reads {operand : Parser Expr} (h : Reads anyKind operand (.phrase .factor))
    (levels : Nat) : Reads anyKind (additiveOver levels operand) (.phrase .sum) :=
  chain_reads .sum (chain_reads .product h levels) levels

theorem exprOver_reads {operand : Parser Expr} (h : Reads anyKind operand (.phrase .factor))
    (levels : Nat) : Reads anyKind (exprOver levels operand) (.phrase .comparison) :=
  chain_reads .comparison (additiveOver_reads h levels) levels

/-! ### Operands -/

theorem least_le_most_of_queryArity? {k : Keyword} {arity : Arity}
    (h : k.queryArity? = some arity) : arity.least ≤ arity.most := by
  cases k <;> cases h <;> decide

theorem Gathered.eventsOfAll {es : List Expr} {ts : List Token}
    (h : Each (fun e ts => Gathered e.events ts) es ts) : Gathered (Expr.eventsOfAll es) ts := by
  rw [Expr.eventsOfAll_eq]
  exact Gathered.flatMap h

theorem query_reads {k : Keyword} {arity : Arity} (harity : k.queryArity? = some arity)
    {input : Parser Expr} (hinput : Reads anyKind input (.phrase .sum)) :
    Reads (· = .keyword k) (query arity input) (.phrase .factor) := by
  refine ((take_reads _ (by simp)).bind fun t =>
    (inputs_reads (least_le_most_of_queryArity? harity) hinput).bind fun es => .pure _ _).mono ?_ ?_
  · rintro _ ts ⟨t, _, _, rfl, ⟨ht, rfl⟩, es, us, _, rfl, ⟨_, hes⟩, rfl, rfl⟩
    rw [List.append_nil]
    exact Gathered.cons ⟨k, ht⟩ (Gathered.eventsOfAll hes)
  · rintro _ ts ⟨t, _, _, rfl, ⟨ht, rfl⟩, es, us, _, rfl, ⟨⟨hleast, hmost⟩, hes⟩, rfl, rfl⟩
    rw [List.append_nil]
    exact .query ht harity hleast hmost (.of_each hes)

/-- What stands between parentheses, without these. -/
def Account.enclosed : Account Expr where
  always e ts := Gathered e.events ts
  clean e ts := ∀ opening closing : Token, opening.kind = .leftParen → closing.kind = .rightParen →
    Phrase .factor e (opening :: (ts ++ [closing]))

theorem group_reads {start : Kind → Prop} {inner : Parser Expr}
    (hinner : Reads anyKind inner (.phrase .comparison)) :
    Reads start (do return .group (← inner)) .enclosed := by
  refine (hinner.of_start fun _ _ => trivial).map (fun _ _ he => he) ?_
  intro e ts he opening closing hopening hclosing
  exact .group hopening he hclosing

theorem enclosed_reads {inner : Parser Expr} (hinner : Reads anyKind inner (.phrase .comparison)) :
    Reads anyKind (enclosed inner) .enclosed := by
  refine Reads.currentKind_bind fun kind _ => ?_
  split
  · rename_i k _
    refine Reads.ite (fun hk => ?_) fun _ => group_reads hinner
    refine ((take_reads _ (by simp)).bind fun t =>
      (many_reads (hinner.of_start fun _ _ => trivial)).bind fun es => .pure _ _).mono ?_ ?_
    · rintro _ ts ⟨t, _, _, rfl, ⟨ht, rfl⟩, es, us, _, rfl, hes, rfl, rfl⟩
      rw [List.append_nil]
      exact Gathered.cons ⟨k, ht⟩ (Gathered.eventsOfAll hes)
    · rintro _ ts ⟨t, _, _, rfl, ⟨ht, rfl⟩, es, us, _, rfl, hes, rfl, rfl⟩ opening closing hopening
        hclosing
      rw [List.append_nil]
      exact .enclosedQuery hopening ht hk (.of_each hes) hclosing
  · exact group_reads hinner

theorem parenthesized_reads {inner : Parser Expr}
    (hinner : Reads anyKind inner (.phrase .comparison)) :
    Reads (· = .leftParen) (parenthesized inner) (.phrase .factor) := by
  refine ((take_reads _ (by simp)).bind fun _ => (enclosed_reads hinner).bind fun _ =>
    (expect_reads (by simp)).bind fun _ => .pure _ _).mono ?_ ?_
  · rintro _ ts ⟨opening, us, _, rfl, _, e, vs, _, rfl, he, _, ws, _, rfl, _, rfl, rfl⟩
    exact Gathered.behind us (Gathered.before _ he)
  · rintro _ ts ⟨opening, _, _, rfl, ⟨hopening, rfl⟩, e, vs, _, rfl, he, _, _, _, rfl,
      ⟨closing, hclosing, rfl, rfl⟩, rfl, rfl⟩
    exact he opening closing hopening hclosing

/-- A token that starts no expression is complained about, whether it is passed over or not. -/
theorem missingExpr_reads {operand : Parser Expr}
    (hoperand : Reads anyKind operand (.phrase .factor)) :
    Reads anyKind (missingExpr operand) ⟨fun e ts => Gathered e.events ts, fun _ _ => False⟩ := by
  intro s hs _
  have heq : outcome (missingExpr operand) s =
      if !s.current.kind.closesSomething && !s.current.kind.startsStatement &&
          s.followingKind.startsExpr then
        outcome operand (outcome (skip 1) (outcome (complain
          (.extraneous s.current.toLexeme (Kind.accepted Kind.startsExpr))) s).2).2
      else (.missing, (outcome (complain
        (.mismatched s.current.toLexeme (Kind.accepted Kind.startsExpr))) s).2) := by
    change outcome (if _ then _ else _) s = _
    rw [outcome_ite]
    rfl
  rw [heq]
  split_ifs
  · have hastray := (complain_astray
      (.extraneous s.current.toLexeme (Kind.accepted Kind.startsExpr)) rfl s).trans
        fun h => skip_astray 1 h
    obtain ⟨notes, hpassage, he, herrors⟩ := hoperand.after_astray hs hastray trivial
    exact ⟨notes, hpassage, he, fun h => absurd h herrors⟩
  · have hastray := complain_astray
      (.mismatched s.current.toLexeme (Kind.accepted Kind.startsExpr)) rfl s
    obtain ⟨notes, hpassage, _, _⟩ := id hastray
    exact ⟨notes, hpassage, Gathered.nil _, fun h => absurd h (hastray.errors_ne_nil hs)⟩

theorem term_reads (levels : Nat) {operand : Parser Expr}
    (hoperand : Reads anyKind operand (.phrase .factor)) :
    Reads anyKind (term levels operand) (.phrase .factor) := by
  have hmissing {start : Kind → Prop} : Reads start (missingExpr operand) (.phrase .factor) := by
    refine ((missingExpr_reads hoperand).of_start fun _ _ => trivial).mono (fun _ _ h => h) ?_
    exact fun _ _ h => h.elim
  refine Reads.currentKind_bind fun kind _ => ?_
  split
  · exact take_return_reads (by simp) (fun t ht => Gathered.single ht) fun t ht => .number ht
  · exact take_return_reads (by simp) (fun t ht => Gathered.single ht) fun t ht => .word ht
  · exact take_return_reads (by simp) (fun t ht => Gathered.single ht) fun t ht => .reference ht
  · refine (dataList_reads levels).map (fun _ _ hitems => hitems) ?_
    rintro items _ ⟨opening, us, closing, rfl, hopening, hitems, hclosing⟩
    exact .list hopening hitems hclosing
  · exact parenthesized_reads (exprOver_reads hoperand levels)
  · rename_i k _
    cases harity : k.queryArity? with
    | none => exact hmissing
    | some arity => exact query_reads harity (additiveOver_reads hoperand levels)
  · exact hmissing

theorem outcome_primaryTooDeep (s : State) :
    outcome primaryTooDeep s =
      (.missing, if (outcome complainTooDeep s).2.current.kind.startsExpr then
        (outcome skipConstruct (outcome complainTooDeep s).2).2
      else (outcome complainTooDeep s).2) := by
  change outcome (if (outcome complainTooDeep s).2.current.kind.startsExpr then _ else _)
    (outcome complainTooDeep s).2 = _
  rw [outcome_ite]
  split_ifs <;> rfl

theorem primaryTooDeep_astray (s : State) : Astray s (outcome primaryTooDeep s).2 := by
  rw [outcome_primaryTooDeep]
  refine (complainTooDeep_astray s).trans fun h => ?_
  split_ifs
  · exact skipConstruct_astray h
  · exact .refl h

theorem primaryTooDeep_reads : Reads anyKind primaryTooDeep (.phrase .factor) := by
  refine Reads.of_astray (fun s _ => primaryTooDeep_astray s) fun s => ?_
  rw [outcome_primaryTooDeep]
  exact Gathered.nil _

/-- Operands keep their account at every depth. -/
theorem primary_reads (levels : Nat) : Reads anyKind (primary levels) (.phrase .factor) := by
  induction levels with
  | zero => exact primaryTooDeep_reads
  | succ levels ih => exact (term_reads levels ih).nested

theorem expr_reads (levels : Nat) : Reads anyKind (expr levels) (.phrase .comparison) :=
  exprOver_reads (primary_reads levels) levels

end LogoServer.Parser
