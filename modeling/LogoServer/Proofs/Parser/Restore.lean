import LogoServer.Proofs.Parser.Layout
import LogoServer.Proofs.Tree.Printed

/-! Literal lists and expressions are restored from their print. A reporter that stood bare comes
back from its parentheses at the same nesting level, and operators link the same operands. -/
namespace LogoServer.Parser

open Grammar

/-! ### Literal lists -/

variable {place : Position}

/-- An element of a literal list that starts with a kind of the given sort. -/
def Layout.element (place : Position) (starts : Kind → Prop) : Layout Datum :=
  ⟨fun item ts => ts = item.printed place ∧ starts (nextKind ts), fun _ _ => True⟩

def Layout.elements (place : Position) : Layout (List Datum) :=
  ⟨fun items ts => ts = Token.inBrackets place (Datum.printedAll place items), fun _ _ => True⟩

/-- A kind that does not end a literal list. -/
def isItem (kind : Kind) : Bool :=
  kind != .rightBracket && kind != .eof

/-- An element of a list looks at the kind ahead, and then it is what the kind starts. -/
theorem Restores.toDatum {inner : Parser Datum} {kind : Kind} {p q : Parser Datum}
    (hp : Restores (· = kind) p q (.element place (· = kind))) (hitem : isItem kind = true)
    (hdatum : ∀ s, s.current.kind = kind → outcome (datum inner) s = outcome q s) :
    Restores (· = kind) p (datum inner) (.element place (isItem · = true)) := by
  have hne : kind ≠ .eof := ne_eof_of_test (by decide) hitem
  refine (hp.redirect_of_kind (· = kind) hne.symm (fun _ _ h => h.2) hdatum).mono ?_ fun _ _ => id
  rintro item ts ⟨hts, hkind⟩
  exact ⟨hts, hkind ▸ hitem⟩

theorem datum_restores {inner : Parser Datum}
    (hinner : Restores (· = .leftBracket) inner inner (.element place (· = .leftBracket))) :
    Restores (isItem · = true) (datum inner) (datum inner) (.element place (isItem · = true)) := by
  refine Restores.currentKind_bind fun k hk => ?_
  have hkept {build : Token → Datum} (hbuild : ∀ t, (build t).printed place = [t]) :
      Restores (· = k) (do return build (← take)) (do return build (← take))
        (.element place (· = k)) := by
    refine (take_restores (ne_eof_of_test (by decide) hk)).map ?_ fun _ _ _ => trivial
    rintro t _ ⟨ht, rfl⟩
    exact ⟨(hbuild t).symm, ht⟩
  cases k with
  | leftBracket =>
    refine hinner.toDatum hk fun s hs => ?_
    simp only [datum, outcome_bind, outcome_currentKind, hs]
  | _ =>
    refine (hkept fun _ => rfl).toDatum hk fun s hs => ?_
    simp only [datum, outcome_bind, outcome_currentKind, hs]

theorem bracketed_restores {inner : Parser Datum}
    (hinner : Restores (· = .leftBracket) inner inner (.element place (· = .leftBracket))) :
    Restores (· = .leftBracket) (bracketed inner) (bracketed inner) (.elements place) := by
  have hitems := many_restores (datum_restores hinner) rfl (fun _ _ h => h.2) fun _ _ _ => trivial
  have hclosing (items : List Datum) := @expect_bind_restores _ _ _ _ _
    (⟨⟨.rightBracket, "]"⟩, place⟩ : Token) (by simp)
    (Restores.pure anyKind items fun _ _ => True)
  have hall := @take_bind_restores _ _ _ _ _ (⟨⟨.leftBracket, "["⟩, place⟩ : Token) (by simp)
    (hitems.bind hclosing (by
      rintro items _ _ us ⟨_, rfl, rfl, rfl⟩ _
      exact ⟨rfl, fun _ _ => trivial⟩))
  refine Restores.mono hall ?_ fun _ _ => id
  rintro _ _ ⟨_, rfl, items, ts, _, rfl, hts, _, rfl, rfl, rfl⟩
  obtain rfl := eq_flatMap_of_each (fun _ _ h => h.1) hts
  rw [← Datum.printedAll_eq]
  rfl

theorem dataList_restores (place : Position) (levels : Nat) :
    Restores (· = .leftBracket) (dataList levels) (dataList levels) (.elements place) := by
  induction levels with
  | zero => exact bracketed_restores (.of_astray datumTooDeep_astray)
  | succ levels ih =>
    have hlist : Restores (· = .leftBracket) (do return Datum.list (← dataList levels))
        (do return Datum.list (← dataList levels)) (.element place (· = .leftBracket)) := by
      refine ih.map ?_ fun _ _ => id
      rintro items _ rfl
      exact ⟨rfl, rfl⟩
    exact bracketed_restores hlist.nested

/-! ### Operators -/

end LogoServer.Parser

namespace LogoServer

/-- Kinds with which an expression starts where every reporter stands in parentheses. -/
def Kind.opensOperand : Kind → Bool
  | .number | .word | .colonName | .leftBracket | .leftParen => true
  | _ => false

/-- Operators that would make more of an expression of a tier if they stood behind it. -/
def Grammar.Tier.goesOn : Tier → Kind → Bool
  | .factor, _ => false
  | .product, kind => kind.isMultiplicative
  | .sum, kind => kind.isAdditive || kind.isMultiplicative
  | .comparison, kind => kind.isComparison || kind.isAdditive || kind.isMultiplicative

namespace Grammar.Tier

variable {tier : Tier} {kind : Kind}

theorem goesOn_eq_false_iff :
    tier.goesOn kind = false ↔ tier.joins kind = false ∧ tier.tighter.goesOn kind = false := by
  cases tier <;> simp [goesOn, joins, tighter, and_assoc]

/-- The operators of a tier end the parts that they join. -/
theorem goesOn_tighter_of_joins (h : tier.joins kind = true) :
    tier.tighter.goesOn kind = false := by
  cases tier <;> cases kind <;> first | rfl | cases h

theorem goesOn_eq_false_of_startsExpr (h : kind.startsExpr = true) :
    tier.goesOn kind = false := by
  cases tier <;> cases kind <;> first | rfl | cases h

theorem startsExpr_of_opensOperand (h : kind.opensOperand = true) :
    kind.startsExpr = true := by
  cases kind <;> first | rfl | cases h

end Grammar.Tier

namespace Parser

open Grammar

variable {place : Position} {tier : Tier}

/-- An expression of a tier. -/
def Layout.phrase (place : Position) (tier : Tier) : Layout Expr :=
  ⟨fun e ts => ts = e.printed place ∧ (nextKind ts).opensOperand = true,
    fun _ kind => tier.goesOn kind = false⟩

/-- The links that make `e` of `left` are written behind it, and the chain takes them up again. -/
def LinksRestored (place : Position) (tier : Tier) (operand : Parser Expr) (room : Nat)
    (left e : Expr) : Prop :=
  ∃ ts, e.printed place = left.printed place ++ ts ∧
    (∀ us, tier.goesOn (nextKind us) = false →
      tier.tighter.goesOn (nextKind (ts ++ us)) = false) ∧
    ∀ (s : State) (us budget : List Token), Clear s (ts ++ us) →
      (ts ++ us).length ≤ budget.length → tier.goesOn (nextKind us) = false →
      (outcome (chainLinks tier.joins operand budget room left) s).1 = e ∧
        Clear (outcome (chainLinks tier.joins operand budget room left) s).2 us

theorem LinksRestored.stay (place : Position) (tier : Tier) (operand : Parser Expr) (room : Nat)
    (left : Expr) : LinksRestored place tier operand room left left := by
  refine ⟨[], (List.append_nil _).symm, fun us hus => (Tier.goesOn_eq_false_iff.mp hus).2, ?_⟩
  intro s us budget hclear _ hus
  have hk : tier.joins s.current.kind = false := by
    rw [hclear.kind]
    exact (Tier.goesOn_eq_false_iff.mp hus).1
  rw [chainLinks_stays hk]
  exact ⟨rfl, hclear⟩

section Chain

variable {operand operand' : Parser Expr}
  (hreads : Reads anyKind operand (.phrase tier.tighter))
  (hoperand : Restores anyKind operand operand' (.phrase place tier.tighter))
include hreads hoperand

theorem chainLinks_restores (budget : List Token) (room : Nat) (left : Expr) {s : State}
    (hs : s.Sound) (hbudget : s.rest.length ≤ budget.length)
    (hclean : (outcome (chainLinks tier.joins operand budget room left) s).2.errors = []) :
    LinksRestored place tier operand' room left
      (outcome (chainLinks tier.joins operand budget room left) s).1 := by
  induction budget generalizing room left s with
  | nil =>
    have hrest : s.rest = [] := List.length_eq_zero_iff.mp (Nat.le_zero.mp hbudget)
    rw [chainLinks_stays (State.kind_of_rest hs.eof_kind hrest ▸ joins_eof tier)]
    exact .stay ..
  | cons b budget ih =>
    cases hk : tier.joins s.current.kind with
    | false =>
      rw [chainLinks_stays hk]
      exact .stay ..
    | true =>
      obtain ⟨hs₁, hs₂, hlength⟩ := operand_behind hreads hs hk
      rw [List.length_cons] at hbudget
      cases room with
      | zero => exact absurd hclean (errors_chainLinks hreads hs hk b budget left)
      | succ room =>
        rw [outcome_chainLinks_cons, if_pos hk] at hclean ⊢
        dsimp only at hclean ⊢
        obtain ⟨ts, ⟨hts, _⟩, hright⟩ :=
          hoperand.restores _ hs₁ trivial (errors_before_chainLinks hreads hs₂ hclean)
        obtain ⟨us, hprinted, hnext, hrest'⟩ := ih room _ hs₂ (by omega) hclean
        refine ⟨s.current :: (ts ++ us), ?_, fun _ _ => Tier.goesOn_tighter_of_joins hk, ?_⟩
        · rw [hprinted, Expr.printed, ← hts]
          simp
        · intro s' vs budget' hclear hlong hvs
          obtain ⟨b', budget', rfl⟩ := List.exists_cons_of_length_pos
            (by simp at hlong; omega : 0 < budget'.length)
          have hcurrent : s'.current = s.current := hclear.current
          have hclear₁ : Clear (outcome take s').2 (ts ++ (us ++ vs)) := by
            rw [← List.append_assoc]
            exact hclear.take
          obtain ⟨hbuilt, hclear₂⟩ := hright _ _ hclear₁ (hnext vs hvs)
          rw [outcome_chainLinks_cons, if_pos (hcurrent ▸ hk)]
          dsimp only
          rw [hbuilt, hcurrent]
          refine hrest' _ vs budget' hclear₂ ?_ hvs
          simp only [List.cons_append, List.length_cons, List.length_append] at hlong ⊢
          omega

theorem chain_restores (levels : Nat) :
    Restores anyKind (chain tier.joins levels operand) (chain tier.joins levels operand')
      (.phrase place tier) where
  passes := (chain_reads tier hreads levels).passes
  restores s hs _ hclean := by
    obtain ⟨_, hpassage⟩ := hreads.passes s hs trivial
    have hs₁ := hpassage.sound hs
    obtain ⟨ts, ⟨hts, hopens⟩, hfirst⟩ :=
      hoperand.restores s hs trivial (errors_before_chainLinks hreads hs₁ hclean)
    obtain ⟨us, hprinted, hnext, hrest⟩ := chainLinks_restores hreads hoperand _ levels _ hs₁
      le_rfl hclean
    refine ⟨ts ++ us, ⟨?_, ?_⟩, fun s' vs hclear hvs => ?_⟩
    · rw [hts]
      exact hprinted.symm
    · rw [nextKind_append rfl hopens]
      exact hopens
    · rw [List.append_assoc] at hclear
      obtain ⟨hbuilt, hclear'⟩ := hfirst s' _ hclear (hnext vs hvs)
      rw [outcome_chain, hbuilt]
      refine hrest _ vs _ hclear' ?_ hvs
      rw [hclear'.rest]

end Chain

/-- An expression of a tier is one of the looser tier too: no operator follows it. -/
theorem Restores.single {start : Kind → Prop} {p q : Parser Expr}
    (h : Restores start p q (.phrase place tier.tighter)) (levels : Nat) :
    Restores start p (chain tier.joins levels q) (.phrase place tier) where
  passes := h.passes
  restores s hs hk hclean := by
    obtain ⟨ts, hts, hrebuilds⟩ := h.restores s hs hk hclean
    refine ⟨ts, hts, fun s' us hclear hus => ?_⟩
    obtain ⟨hjoins, hgoesOn⟩ := Tier.goesOn_eq_false_iff.mp hus
    obtain ⟨hbuilt, hclear'⟩ := hrebuilds s' us hclear hgoesOn
    rw [outcome_chain, chainLinks_stays (by rw [hclear'.kind]; exact hjoins)]
    exact ⟨hbuilt, hclear'⟩

section Operand

variable {operand : Parser Expr} (hreads : Reads anyKind operand (.phrase .factor))
  (hoperand : Restores anyKind operand operand (.phrase place .factor)) (levels : Nat)
include hreads hoperand

theorem additiveOver_restores :
    Restores anyKind (additiveOver levels operand) (additiveOver levels operand)
      (.phrase place .sum) := by
  have hproduct := chain_reads .product hreads levels
  exact @chain_restores _ .sum _ _ hproduct
    (@chain_restores _ .product _ _ hreads hoperand levels) levels

theorem exprOver_restores :
    Restores anyKind (exprOver levels operand) (exprOver levels operand)
      (.phrase place .comparison) := by
  have hsum := additiveOver_reads hreads levels
  exact @chain_restores _ .comparison _ _ hsum (additiveOver_restores hreads hoperand levels) levels

end Operand

/-! ### Operands -/

/-- An operand that starts with the given kind. -/
def Layout.operand (place : Position) (kind : Kind) : Layout Expr :=
  ⟨fun e ts => ts = e.printed place ∧ nextKind ts = kind, fun _ _ => True⟩

/-- What stands between parentheses. -/
def Layout.enclosed (place : Position) : Layout Expr :=
  ⟨fun e ts => e.printed place = Token.inParens place ts, fun _ kind => kind = .rightParen⟩

section Inputs

variable {input inner : Parser Expr}
  (hinput : Restores anyKind input inner (.phrase place .comparison))
include hinput

/-- Inputs, whether bare or not, are taken up again as those of a reporter in parentheses. -/
theorem rebuilds_inputs {s t : State} {es : List Expr} (h : Turns Kind.startsExpr input s es t)
    (hs : s.Sound) (hclean : t.errors = []) {keyword : Token}
    (hkeyword : keyword.kind.isReporter = true) :
    ∃ ts, (Layout.enclosed place).spells (.query keyword es) ts ∧
      Rebuilds (enclosed inner) (.query keyword es) ts (· = .rightParen) := by
  have hitem : Restores (Kind.startsExpr · = true) input inner (.phrase place .comparison) :=
    hinput.of_start fun _ _ => trivial
  obtain ⟨ts, hts, hrebuilds⟩ := rebuilds_many hitem rfl
    (fun _ _ h => Tier.startsExpr_of_opensOperand h.2)
    (fun _ _ h => Tier.goesOn_eq_false_of_startsExpr h) h hs hclean
  refine ⟨keyword :: ts, ?_, fun s' us hclear hus => ?_⟩
  · obtain rfl := eq_flatMap_of_each (fun _ _ h => h.1) hts
    rw [← Expr.printedAll_eq]
    rfl
  · have hcurrent : s'.current = keyword := hclear.current
    have hfollows : Kind.startsExpr (nextKind us) = false ∧
        ∀ e ∈ es.getLast?, (Layout.phrase place .comparison).follows e (nextKind us) := by
      rw [hus]
      exact ⟨rfl, fun _ _ => rfl⟩
    obtain ⟨hbuilt, hclear'⟩ := hrebuilds _ us hclear.take hfollows
    rw [outcome_enclosed, hcurrent, if_pos hkeyword]
    dsimp only
    rw [hbuilt]
    exact ⟨rfl, hclear'⟩

end Inputs

theorem isReporter_of_opensOperand {kind : Kind} (h : kind.opensOperand = true) :
    kind.isReporter = false := by
  cases kind <;> first | rfl | cases h

theorem enclosed_restores {inner : Parser Expr}
    (hreads : Reads anyKind inner (.phrase .comparison))
    (hinner : Restores anyKind inner inner (.phrase place .comparison)) :
    Restores anyKind (enclosed inner) (enclosed inner) (.enclosed place) where
  passes := (enclosed_reads hreads).passes
  restores s hs _ hclean := by
    rw [outcome_enclosed] at hclean ⊢
    split_ifs at hclean ⊢ with hk
    · have hne : s.current.kind ≠ .eof := ne_eof_of_test rfl hk
      have hs₁ := (take_passage hs hne).sound hs
      obtain ⟨es, hbuilt, hturns, _, _⟩ := collect_turns Kind.startsExpr inner
        (outcome take s).2.rest [] (outcome take s).2
      have hbuilt' : (outcome (many Kind.startsExpr inner) (outcome take s).2).1 = es := hbuilt
      dsimp only
      rw [hbuilt']
      exact rebuilds_inputs hinner hturns hs₁ hclean hk
    · obtain ⟨ts, ⟨hts, hopens⟩, hrebuilds⟩ := hinner.restores s hs trivial hclean
      refine ⟨ts, ?_, fun s' us hclear hus => ?_⟩
      · rw [hts]
        rfl
      · have hgroup : s'.current.kind.isReporter = false := by
          rw [hclear.kind, nextKind_append rfl hopens]
          exact isReporter_of_opensOperand hopens
        obtain ⟨hbuilt, hclear'⟩ := hrebuilds s' us hclear (by
          change Tier.goesOn .comparison (nextKind us) = false
          rw [hus]
          rfl)
        rw [outcome_enclosed, if_neg (by simp [hgroup]), hbuilt]
        exact ⟨rfl, hclear'⟩

/-- Parentheses are written around what stands between them. -/
theorem rebuilds_parenthesized {inner : Parser Expr} {e : Expr} {ts : List Token}
    (hspells : (Layout.enclosed place).spells e ts)
    (h : Rebuilds (enclosed inner) e ts (· = .rightParen)) :
    Rebuilds (parenthesized inner) e (e.printed place) fun _ => True := by
  intro s us hclear _
  have hspells' : e.printed place = Token.inParens place ts := hspells
  rw [hspells'] at hclear
  have hclear₁ : Clear (outcome take s).2
      (ts ++ ⟨⟨.rightParen, ")"⟩, place⟩ :: us) := by
    have htake := hclear.take
    rw [← List.singleton_append, ← List.append_assoc]
    exact htake
  obtain ⟨hbuilt, hclear₂⟩ := h _ _ hclear₁ rfl
  have hclosing : (outcome (enclosed inner) (outcome take s).2).2.current.kind = .rightParen :=
    hclear₂.kind
  refine ⟨hbuilt, ?_⟩
  change Clear (outcome (expect .rightParen) (outcome (enclosed inner) (outcome take s).2).2).2 us
  rw [outcome_expect_of_kind hclosing]
  exact hclear₂.take

theorem parenthesized_restores {inner : Parser Expr}
    (hreads : Reads anyKind inner (.phrase .comparison))
    (hinner : Restores anyKind inner inner (.phrase place .comparison)) :
    Restores (· = .leftParen) (parenthesized inner) (parenthesized inner)
      (.operand place .leftParen) where
  passes := (parenthesized_reads hreads).passes
  restores s hs hk hclean := by
    have hs₁ := (take_passage hs (by simp [hk])).sound hs
    obtain ⟨_, hpassage⟩ := (enclosed_reads hreads).passes _ hs₁ trivial
    obtain ⟨_, hpassage'⟩ := (expect_reads (show Kind.rightParen ≠ .eof by simp)).passes
      _ (hpassage.sound hs₁) trivial
    obtain ⟨ts, hts, hrebuilds⟩ := (enclosed_restores hreads hinner).restores _ hs₁ trivial
      (hpassage'.errors_eq_nil hclean)
    have hprinted : (outcome (parenthesized inner) s).1.printed place =
        Token.inParens place ts := hts
    exact ⟨_, ⟨rfl, by rw [hprinted]; rfl⟩, rebuilds_parenthesized hts hrebuilds⟩

section Redirected

variable {operand : Parser Expr} {levels : Nat} {kind : Kind}

/-- A term looks at the kind ahead, and then it is what the kind opens. -/
theorem Restores.toTerm {start : Kind → Prop} {p q : Parser Expr}
    (hp : Restores start p q (.operand place kind)) (hkind : kind.opensOperand = true)
    (hterm : ∀ s, s.current.kind = kind → outcome (term levels operand) s = outcome q s) :
    Restores start p (term levels operand) (.phrase place .factor) := by
  have hne : kind ≠ .eof := ne_eof_of_test rfl hkind
  refine (hp.redirect_of_kind (· = kind) hne.symm (fun _ _ h => h.2) hterm).mono ?_ fun _ _ _ => trivial
  rintro e ts ⟨hts, hstart⟩
  exact ⟨hts, hstart ▸ hkind⟩

theorem operand_restores (hkind : kind.opensOperand = true) {build : Token → Expr}
    (hbuild : ∀ t, (build t).printed place = [t]) :
    Restores (· = kind) (do return build (← take)) (do return build (← take))
      (.operand place kind) := by
  refine (take_restores (ne_eof_of_test rfl hkind)).map ?_ ?_
  · rintro t _ ⟨ht, rfl⟩
    exact ⟨(hbuild t).symm, ht⟩
  · exact fun _ _ _ => trivial

theorem list_restores :
    Restores (· = .leftBracket) (do return Expr.list (← dataList levels))
      (do return Expr.list (← dataList levels)) (.operand place .leftBracket) := by
  refine (dataList_restores place levels).map ?_ fun _ _ => id
  rintro items _ rfl
  exact ⟨rfl, rfl⟩

end Redirected

section Term

variable {operand : Parser Expr} (hreads : Reads anyKind operand (.phrase .factor))
  (hoperand : Restores anyKind operand operand (.phrase place .factor)) (levels : Nat)
include hreads hoperand

/-- A bare reporter is restored in parentheses. -/
theorem query_restores {k : Keyword} {arity : Arity} (harity : k.queryArity? = some arity) :
    Restores (· = .keyword k) (query arity (additiveOver levels operand))
      (parenthesized (exprOver levels operand)) (.operand place .leftParen) where
  passes := (query_reads harity (additiveOver_reads hreads levels)).passes
  restores s hs hk hclean := by
    have hs₁ := (take_passage hs (by simp [hk])).sound hs
    have hturns := inputs_turns (additiveOver_reads hreads levels) arity hs₁ hclean
    have hreporter : s.current.kind.isReporter = true := by
      rw [hk]
      cases k <;> first | rfl | cases harity
    have hsum := additiveOver_restores hreads hoperand levels
    have hinput : Restores anyKind (additiveOver levels operand) (exprOver levels operand)
        (.phrase place .comparison) := @Restores.single _ .comparison _ _ _ hsum levels
    obtain ⟨ts, hts, hrebuilds⟩ := rebuilds_inputs hinput hturns hs₁ hclean hreporter
    exact ⟨_, ⟨rfl, rfl⟩, rebuilds_parenthesized hts hrebuilds⟩

theorem term_restores :
    Restores anyKind (term levels operand) (term levels operand) (.phrase place .factor) := by
  have hparens (s : State) (hs : s.current.kind = .leftParen) :
      outcome (term levels operand) s = outcome (parenthesized (exprOver levels operand)) s := by
    simp only [term, outcome_bind, outcome_currentKind, hs]
  have hmissing {start : Kind → Prop} : Restores start (missingExpr operand) (term levels operand)
      (.phrase place .factor) :=
    .of_never ((missingExpr_reads hreads).of_start fun _ _ => trivial) fun _ _ => id
  refine Restores.currentKind_bind fun k _ => ?_
  cases k with
  | number | word | colonName =>
    refine (operand_restores rfl fun _ => rfl).toTerm rfl fun s hs => ?_
    simp only [term, outcome_bind, outcome_currentKind, hs]
  | leftBracket =>
    refine list_restores.toTerm rfl fun s hs => ?_
    simp only [term, outcome_bind, outcome_currentKind, hs]
  | leftParen =>
    have hinner := exprOver_restores hreads hoperand levels
    exact (parenthesized_restores (exprOver_reads hreads levels) hinner).toTerm rfl hparens
  | keyword k =>
    dsimp only
    cases harity : k.queryArity? with
    | none => exact hmissing
    | some arity => exact (query_restores hreads hoperand levels harity).toTerm rfl hparens
  | _ => exact hmissing

end Term

theorem primary_restores (place : Position) (levels : Nat) :
    Restores anyKind (primary levels) (primary levels) (.phrase place .factor) := by
  induction levels with
  | zero => exact .of_astray primaryTooDeep_astray
  | succ levels ih => exact (term_restores (primary_reads levels) ih levels).nested

theorem expr_restores (place : Position) (levels : Nat) :
    Restores anyKind (expr levels) (expr levels) (.phrase place .comparison) :=
  exprOver_restores (primary_reads levels) (primary_restores place levels) levels

end Parser

end LogoServer
