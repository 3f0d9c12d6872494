import LogoServer.Proofs.Parser.Grammar
import Mathlib.Tactic

/-! How deep a tree is. A gauge says what the nodes on a path add to its length; the height of a
tree, its nesting and the levels the parser counts are read off by three gauges. Trees that fit in a
number of nesting levels are bounded under each of them. -/
namespace LogoServer

open Grammar

/-- The tier whose parts an operator joins. -/
def Kind.tier (kind : Kind) : Tier :=
  if kind.isMultiplicative then .product
  else if kind.isAdditive then .sum
  else if kind.isComparison then .comparison
  else .factor

/-- How loosely the operators of a tier bind. -/
def Grammar.Tier.rank : Tier → Nat
  | .factor => 0
  | .product => 1
  | .sum => 2
  | .comparison => 3

theorem Grammar.Tier.rank_tighter (tier : Tier) : tier.tighter.rank = tier.rank - 1 := by
  cases tier <;> rfl

theorem Grammar.Tier.eq_of_joins {tier : Tier} {kind : Kind} (h : tier.joins kind = true) :
    kind.tier = tier := by
  cases kind <;> cases tier <;> first | rfl | cases h

theorem Grammar.Tier.ne_factor_of_joins {tier : Tier} {kind : Kind} (h : tier.joins kind = true) :
    tier ≠ .factor := by
  rintro rfl
  cases h

/-- Number of operators that join the parts of a tier in a chain, counted from the last one. -/
def Expr.links (tier : Tier) : Expr → Nat
  | .binary left operator _ => if operator.kind.tier = tier then left.links tier + 1 else 0
  | _ => 0

/-- What the nodes on a path add to its length. -/
structure Gauge where
  statement : Nat
  /-- A block or the body of a procedure. -/
  body : Nat
  leaf : Nat
  list : Nat
  query : Nat
  group : Nat
  /-- Length at an operator, given its links and the lengths below it on either side. -/
  link : (links left right : Nat) → Nat

namespace Gauge

/-- Counts the nodes: statements, expressions and elements of literal lists. -/
def height : Gauge where
  statement := 1
  body := 0
  leaf := 1
  list := 1
  query := 1
  group := 1
  link _ left right := max left right + 1

/-- Counts blocks, bodies of procedures, groups, literal lists and operators. -/
def nesting : Gauge where
  statement := 0
  body := 1
  leaf := 0
  list := 1
  query := 0
  group := 1
  link _ left right := max left right + 1

/-- Counts as the nesting does, except that the links of one chain count beside what is nested in
its operands and not on top of it. -/
def reach : Gauge :=
  { nesting with link := fun links left right => max links (max left right) }

/-- No node adds more than one. -/
structure Modest (g : Gauge) : Prop where
  statement : g.statement + g.body ≤ 1
  list : g.list ≤ 1
  query : g.query ≤ 1
  group : g.group ≤ 1
  link : ∀ links left right, g.link links left right ≤ max left right + 1

theorem height_modest : height.Modest := by
  constructor <;> simp [height]

theorem nesting_modest : nesting.Modest := by
  constructor <;> simp [nesting]

end Gauge

/-! ### Paths -/

mutual
/-- Length of the longest path into an element of a literal list. -/
def Datum.path (g : Gauge) : Datum → Nat
  | .number _ | .word _ | .atom _ => g.leaf
  | .list items => g.list + Datum.longest g items

def Datum.longest (g : Gauge) : List Datum → Nat
  | [] => 0
  | item :: items => max (item.path g) (Datum.longest g items)
end

mutual
/-- Length of the longest path into an expression. -/
def Expr.path (g : Gauge) : Expr → Nat
  | .number _ | .word _ | .reference _ | .missing => g.leaf
  | .list items => g.list + Datum.longest g items
  | .query _ inputs => g.query + Expr.longest g inputs
  | .binary left operator right =>
    g.link ((Expr.binary left operator right).links operator.kind.tier) (left.path g) (right.path g)
  | .group inner => g.group + inner.path g

def Expr.longest (g : Gauge) : List Expr → Nat
  | [] => 0
  | e :: es => max (e.path g) (Expr.longest g es)
end

mutual
/-- Length of the longest path into an argument of a command. -/
def Argument.path (g : Gauge) : Argument → Nat
  | .expr value => value.path g
  | .block body => g.body + Statement.longest g body

def Argument.longest (g : Gauge) : List Argument → Nat
  | [] => 0
  | a :: as => max (a.path g) (Argument.longest g as)

/-- Length of the longest path into a statement. -/
def Statement.path (g : Gauge) : Statement → Nat
  | .command _ arguments => g.statement + Argument.longest g arguments
  | .setPosition _ _ value | .binding _ _ _ value => g.statement + value.path g
  | .definition _ _ _ _ body _ => g.statement + (g.body + Statement.longest g body)
  | .loop _ _ _ bounds body =>
    g.statement + max (Expr.longest g bounds) (g.body + Statement.longest g body)
  | .call _ inputs => g.statement + Expr.longest g inputs

def Statement.longest (g : Gauge) : List Statement → Nat
  | [] => 0
  | s :: ss => max (s.path g) (Statement.longest g ss)
end

section Longest

variable (g : Gauge) (bound : Nat)

theorem Datum.longest_le_iff (items : List Datum) :
    Datum.longest g items ≤ bound ↔ ∀ item ∈ items, item.path g ≤ bound := by
  induction items with
  | nil => simp [longest]
  | cons item items ih => simp [longest, ih]

theorem Expr.longest_le_iff (es : List Expr) :
    Expr.longest g es ≤ bound ↔ ∀ e ∈ es, e.path g ≤ bound := by
  induction es with
  | nil => simp [longest]
  | cons e es ih => simp [longest, ih]

theorem Argument.longest_le_iff (as : List Argument) :
    Argument.longest g as ≤ bound ↔ ∀ a ∈ as, a.path g ≤ bound := by
  induction as with
  | nil => simp [longest]
  | cons a as ih => simp [longest, ih]

theorem Statement.longest_le_iff (ss : List Statement) :
    Statement.longest g ss ≤ bound ↔ ∀ s ∈ ss, s.path g ≤ bound := by
  induction ss with
  | nil => simp [longest]
  | cons s ss ih => simp [longest, ih]

end Longest

/-! ### Trees that fit in a number of levels -/

/-- A literal list inside another one takes a level. -/
inductive Datum.Within : Nat → Datum → Prop
  | number {levels : Nat} (t : Token) : Within levels (.number t)
  | word {levels : Nat} (t : Token) : Within levels (.word t)
  | atom {levels : Nat} (t : Token) : Within levels (.atom t)
  | list {levels : Nat} {items : List Datum} (h : ∀ item ∈ items, Within levels item) :
      Within (levels + 1) (.list items)

/-- An operand takes a level. A chain takes none, but has no more links than there are levels. -/
inductive Expr.Within : Nat → Tier → Expr → Prop
  | missing {levels : Nat} : Within levels .factor .missing
  | number {levels : Nat} (t : Token) : Within levels .factor (.number t)
  | word {levels : Nat} (t : Token) : Within levels .factor (.word t)
  | reference {levels : Nat} (t : Token) : Within levels .factor (.reference t)
  | list {levels : Nat} {items : List Datum} (h : ∀ item ∈ items, item.Within levels) :
      Within (levels + 1) .factor (.list items)
  | query {levels : Nat} {t : Token} {inputs : List Expr}
      (h : ∀ e ∈ inputs, Within levels .comparison e) :
      Within (levels + 1) .factor (.query t inputs)
  | group {levels : Nat} {inner : Expr} (h : Within levels .comparison inner) :
      Within (levels + 1) .factor (.group inner)
  | single {levels : Nat} {tier : Tier} {e : Expr} (h : Within levels tier.tighter e) :
      Within levels tier e
  | link {levels : Nat} {tier : Tier} {left right : Expr} {operator : Token}
      (hleft : Within levels tier left) (hoperator : tier.joins operator.kind = true)
      (hroom : left.links tier < levels) (hright : Within levels tier.tighter right) :
      Within levels tier (.binary left operator right)

mutual
inductive Argument.Within : Nat → Argument → Prop
  | expr {levels : Nat} {value : Expr} (h : value.Within levels .comparison) :
      Argument.Within levels (.expr value)
  | block {levels : Nat} {body : List Statement} (h : Statement.AllWithin levels body) :
      Argument.Within levels (.block body)

inductive Statement.Within : Nat → Statement → Prop
  | command {levels : Nat} {t : Token} {arguments : List Argument}
      (h : ∀ a ∈ arguments, Argument.Within levels a) :
      Statement.Within levels (.command t arguments)
  | setPosition {levels : Nat} {t : Token} {target : Option Token} {value : Expr}
      (h : value.Within levels .comparison) : Statement.Within levels (.setPosition t target value)
  | definition {levels : Nat} {form : DefinitionForm} {t : Token} {name closing : Option Token}
      {parameters : List Token} {body : List Statement} (h : Statement.AllWithin levels body) :
      Statement.Within levels (.definition form t name parameters body closing)
  | binding {levels : Nat} {form : BindingForm} {t : Token} {name : Option Token} {value : Expr}
      (h : value.Within levels .comparison) : Statement.Within levels (.binding form t name value)
  | loop {levels : Nat} {form : LoopForm} {t : Token} {counter : Option Token} {bounds : List Expr}
      {body : List Statement} (hbounds : ∀ e ∈ bounds, e.Within levels .comparison)
      (hbody : Statement.AllWithin levels body) :
      Statement.Within levels (.loop form t counter bounds body)
  | call {levels : Nat} {t : Token} {inputs : List Expr}
      (h : ∀ e ∈ inputs, e.Within levels .comparison) : Statement.Within levels (.call t inputs)

/-- A sequence takes a level, and is empty where there is none left. -/
inductive Statement.AllWithin : Nat → List Statement → Prop
  | nil : Statement.AllWithin 0 []
  | all {levels : Nat} {ss : List Statement} (h : ∀ s ∈ ss, Statement.Within levels s) :
      Statement.AllWithin (levels + 1) ss
end

theorem Datum.Within.succ {levels : Nat} {item : Datum} (h : item.Within levels) :
    item.Within (levels + 1) := by
  induction h with
  | number t => exact .number t
  | word t => exact .word t
  | atom t => exact .atom t
  | list _ ih => exact .list ih

theorem Expr.Within.succ {levels : Nat} {tier : Tier} {e : Expr} (h : e.Within levels tier) :
    e.Within (levels + 1) tier := by
  induction h with
  | missing => exact .missing
  | number t => exact .number t
  | word t => exact .word t
  | reference t => exact .reference t
  | list h => exact .list fun item hitem => (h item hitem).succ
  | query _ ih => exact .query ih
  | group _ ih => exact .group ih
  | single _ ih => exact .single ih
  | link _ hoperator hroom _ ihleft ihright =>
    exact .link ihleft hoperator (Nat.lt_succ_of_lt hroom) ihright

namespace Expr.Within

variable {levels : Nat} {tier : Tier} {e : Expr}

theorem links_binary {left right : Expr} {operator : Token}
    (h : tier.joins operator.kind = true) :
    (Expr.binary left operator right).links tier = left.links tier + 1 := by
  rw [Expr.links, if_pos (Tier.eq_of_joins h)]

/-- An expression of one tier is no chain of a looser one, nor is there a chain of operands. -/
theorem links_eq_zero (h : e.Within levels tier) {looser : Tier}
    (hlooser : looser = .factor ∨ tier.rank < looser.rank) : e.links looser = 0 := by
  induction h with
  | missing | number | word | reference | list | query | group => rfl
  | @single _ tier _ _ ih =>
    refine ih (hlooser.imp_right fun hlt => ?_)
    have hrank := tier.rank_tighter
    omega
  | @link _ tier left right operator _ hoperator _ _ _ _ =>
    have hne : operator.kind.tier ≠ looser := by
      rw [Tier.eq_of_joins hoperator]
      rintro rfl
      rcases hlooser with hfactor | hlt
      · exact Tier.ne_factor_of_joins hoperator hfactor
      · omega
    rw [Expr.links, if_neg hne]

theorem links_le (h : e.Within levels tier) : e.links tier ≤ levels := by
  cases h with
  | missing | number | word | reference | list | query | group => exact Nat.zero_le _
  | single h =>
    cases tier with
    | factor =>
      rw [links_eq_zero h (.inl rfl)]
      exact Nat.zero_le _
    | product | sum | comparison =>
      rw [links_eq_zero h (.inr (by decide))]
      exact Nat.zero_le _
  | link _ hoperator hroom _ =>
    rw [links_binary hoperator]
    exact hroom

end Expr.Within

/-! ### Bounds under modest gauges -/

/-- Length of a path into an operand for which a number of levels is left: at each level three
chains may stand on top of each other. -/
def span : Nat → Nat
  | 0 => 0
  | levels + 1 => span levels + 3 * levels + 1

theorem le_span (levels : Nat) : levels ≤ span levels := by
  induction levels with
  | zero => exact Nat.zero_le _
  | succ levels ih =>
    rw [span]
    omega

theorem two_mul_span (levels : Nat) : 2 * span levels + levels = 3 * levels * levels := by
  induction levels with
  | zero => rfl
  | succ levels ih =>
    rw [span]
    nlinarith [ih]

section Modest

variable {g : Gauge} (hg : g.Modest)
include hg

theorem Datum.Within.path_le {levels : Nat} {item : Datum} (h : item.Within levels) :
    item.path g ≤ g.leaf + levels := by
  induction h with
  | number | word | atom => exact Nat.le_add_right _ _
  | @list levels items _ ih =>
    have hitems := (Datum.longest_le_iff g (g.leaf + levels) items).mpr ih
    have hlist := hg.list
    rw [Datum.path]
    omega

/-- A chain stands on its operands, of which the first one may be a chain of the next tier. -/
theorem Expr.Within.path_le {levels : Nat} {tier : Tier} {e : Expr} (h : e.Within levels tier) :
    e.path g ≤ g.leaf + span levels + (tier.rank - 1) * levels + e.links tier := by
  have hsingle {levels : Nat} {tier : Tier} {e : Expr} (h : e.Within levels tier.tighter)
      (ih : e.path g ≤
        g.leaf + span levels + (tier.tighter.rank - 1) * levels + e.links tier.tighter) :
      e.path g ≤ g.leaf + span levels + (tier.rank - 1) * levels := by
    have hlinks := h.links_le
    cases tier with
    | factor | product =>
      have hzero : e.links .factor = 0 := h.links_eq_zero (.inl rfl)
      simp only [Tier.tighter, Tier.rank, hzero] at ih ⊢
      omega
    | sum | comparison =>
      simp only [Tier.tighter, Tier.rank] at ih hlinks ⊢
      omega
  induction h with
  | missing | number | word | reference =>
    simp only [Expr.path]
    omega
  | @list levels items h =>
    have hitems := (Datum.longest_le_iff g (g.leaf + levels) items).mpr
      fun item hitem => (h item hitem).path_le hg
    have hlist := hg.list
    have hspan := le_span levels
    simp only [Expr.path, span, Tier.rank]
    omega
  | @query levels t inputs h ih =>
    have hinputs := (Expr.longest_le_iff g (g.leaf + span levels + 3 * levels) inputs).mpr
      fun e he => by
        have hlinks := (h e he).links_le
        have hpath := ih e he
        simp only [Tier.rank] at hpath
        omega
    have hquery := hg.query
    simp only [Expr.path, span, Tier.rank]
    omega
  | group h ih =>
    have hlinks := h.links_le
    have hgroup := hg.group
    simp only [Expr.path, span, Tier.rank] at ih ⊢
    omega
  | single h ih => exact (hsingle h ih).trans (Nat.le_add_right _ _)
  | @link levels tier left right operator _ hoperator _ hright ihleft ihright =>
    have hpath := hg.link ((Expr.binary left operator right).links operator.kind.tier)
      (left.path g) (right.path g)
    have hoperand := hsingle hright ihright
    rw [Expr.path, links_binary hoperator]
    omega

theorem Expr.Within.path_le_span {levels : Nat} {e : Expr} (h : e.Within levels .comparison) :
    e.path g + 1 ≤ g.leaf + span (levels + 1) := by
  have hpath := h.path_le hg
  have hlinks := h.links_le
  simp only [Tier.rank, span] at hpath ⊢
  omega

theorem Expr.longest_le_span {levels : Nat} {es : List Expr}
    (h : ∀ e ∈ es, e.Within levels .comparison) :
    Expr.longest g es ≤ g.leaf + span (levels + 1) := by
  refine (Expr.longest_le_iff g _ es).mpr fun e he => ?_
  have hpath := (h e he).path_le_span hg
  omega

theorem Statement.body_le_span {levels : Nat} {ss : List Statement}
    (h : Statement.longest g ss ≤ g.statement + (g.leaf + span levels)) :
    g.body + Statement.longest g ss ≤ g.leaf + span (levels + 1) := by
  have hstatement := hg.statement
  simp only [span]
  omega

end Modest

mutual
theorem Argument.Within.path_le {g : Gauge} (hg : g.Modest) {levels : Nat} {a : Argument} :
    a.Within levels → a.path g ≤ g.leaf + span (levels + 1)
  | .expr h => by
    have hpath := h.path_le_span hg
    rw [Argument.path]
    omega
  | .block h => Statement.body_le_span hg (h.longest_le hg)

/-- A statement fits in a number of levels, that of its own sequence not counted. -/
theorem Statement.Within.path_le {g : Gauge} (hg : g.Modest) {levels : Nat} {s : Statement} :
    s.Within levels → s.path g ≤ g.statement + (g.leaf + span (levels + 1))
  | .command h => by
    have harguments := (Argument.longest_le_iff g _ _).mpr fun a ha => (h a ha).path_le hg
    rw [Statement.path]
    omega
  | .setPosition h | .binding h => by
    have hpath := h.path_le_span hg
    rw [Statement.path]
    omega
  | .definition h => by
    have hbody := Statement.body_le_span hg (h.longest_le hg)
    rw [Statement.path]
    omega
  | .loop hbounds h => by
    have hbody := Statement.body_le_span hg (h.longest_le hg)
    have hlongest := Expr.longest_le_span hg hbounds
    rw [Statement.path]
    omega
  | .call h => by
    have hlongest := Expr.longest_le_span hg h
    rw [Statement.path]
    omega

theorem Statement.AllWithin.longest_le {g : Gauge} (hg : g.Modest) {levels : Nat}
    {ss : List Statement} :
    Statement.AllWithin levels ss → Statement.longest g ss ≤ g.statement + (g.leaf + span levels)
  | .nil => Nat.zero_le _
  | .all h => (Statement.longest_le_iff g _ _).mpr fun s hs => (h s hs).path_le hg
end

/-! ### What the levels count -/

theorem Datum.Within.reach_le {levels : Nat} {item : Datum} (h : item.Within levels) :
    item.path .reach ≤ levels := by
  induction h with
  | number | word | atom => exact Nat.zero_le _
  | @list levels items _ ih =>
    have hitems := (Datum.longest_le_iff .reach levels items).mpr ih
    change 1 + Datum.longest .reach items ≤ levels + 1
    omega

theorem Expr.Within.reach_le {levels : Nat} {tier : Tier} {e : Expr} (h : e.Within levels tier) :
    e.path .reach ≤ levels := by
  induction h with
  | missing | number | word | reference => exact Nat.zero_le _
  | @list levels items h =>
    have hitems := (Datum.longest_le_iff .reach levels items).mpr
      fun item hitem => (h item hitem).reach_le
    change 1 + Datum.longest .reach items ≤ levels + 1
    omega
  | @query levels t inputs _ ih =>
    have hinputs := (Expr.longest_le_iff .reach levels inputs).mpr ih
    change 0 + Expr.longest .reach inputs ≤ levels + 1
    omega
  | @group levels inner _ ih =>
    change 1 + inner.path .reach ≤ levels + 1
    omega
  | single _ ih => exact ih
  | @link levels tier left right operator _ hoperator hroom _ ihleft ihright =>
    change max ((Expr.binary left operator right).links operator.kind.tier)
      (max (left.path .reach) (right.path .reach)) ≤ levels
    rw [Tier.eq_of_joins hoperator, links_binary hoperator]
    omega

theorem Expr.longest_reach_le {levels : Nat} {es : List Expr}
    (h : ∀ e ∈ es, e.Within levels .comparison) : Expr.longest .reach es ≤ levels :=
  (Expr.longest_le_iff .reach levels es).mpr fun e he => (h e he).reach_le

mutual
theorem Argument.Within.reach_le {levels : Nat} {a : Argument} :
    a.Within levels → a.path .reach ≤ levels + 1
  | .expr h => Nat.le_succ_of_le h.reach_le
  | .block h => by
    have hbody := h.reach_le
    change 1 + Statement.longest .reach _ ≤ levels + 1
    omega

theorem Statement.Within.reach_le {levels : Nat} {s : Statement} :
    s.Within levels → s.path .reach ≤ levels + 1
  | .command h => by
    have harguments := (Argument.longest_le_iff .reach _ _).mpr fun a ha => (h a ha).reach_le
    change 0 + Argument.longest .reach _ ≤ levels + 1
    omega
  | .setPosition h | .binding h => by
    have hvalue := h.reach_le
    change 0 + Expr.path .reach _ ≤ levels + 1
    omega
  | .definition h => by
    have hbody := h.reach_le
    change 0 + (1 + Statement.longest .reach _) ≤ levels + 1
    omega
  | .loop hbounds h => by
    have hbody := h.reach_le
    have hlongest := Expr.longest_reach_le hbounds
    change 0 + max (Expr.longest .reach _) (1 + Statement.longest .reach _) ≤ levels + 1
    omega
  | .call h => by
    have hlongest := Expr.longest_reach_le h
    change 0 + Expr.longest .reach _ ≤ levels + 1
    omega

/-- The limit bounds blocks, bodies, groups and lists together with the links of any one chain. -/
theorem Statement.AllWithin.reach_le {levels : Nat} {ss : List Statement} :
    Statement.AllWithin levels ss → Statement.longest .reach ss ≤ levels
  | .nil => Nat.zero_le _
  | .all h => (Statement.longest_le_iff .reach _ _).mpr fun s hs => (h s hs).reach_le
end

/-! ### Chains of plain operands -/

mutual
/-- Nothing is nested in the operands of a chain, except that the first one may be the chain up to
there. -/
def Expr.isPlain : Expr → Bool
  | .number _ | .word _ | .reference _ | .missing | .list _ => true
  | .query _ inputs => Expr.arePlain inputs
  | .group inner => inner.isPlain
  | .binary left operator right =>
    left.isPlain && right.path .nesting == 0 &&
      (left.path .nesting == 0 || 0 < left.links operator.kind.tier)

def Expr.arePlain : List Expr → Bool
  | [] => true
  | e :: es => e.isPlain && Expr.arePlain es
end

mutual
def Argument.isPlain : Argument → Bool
  | .expr value => value.isPlain
  | .block body => Statement.arePlain body

def Argument.arePlain : List Argument → Bool
  | [] => true
  | a :: as => a.isPlain && Argument.arePlain as

/-- Chains anywhere in the statement have plain operands. -/
def Statement.isPlain : Statement → Bool
  | .command _ arguments => Argument.arePlain arguments
  | .setPosition _ _ value | .binding _ _ _ value => value.isPlain
  | .definition _ _ _ _ body _ => Statement.arePlain body
  | .loop _ _ _ bounds body => Expr.arePlain bounds && Statement.arePlain body
  | .call _ inputs => Expr.arePlain inputs

def Statement.arePlain : List Statement → Bool
  | [] => true
  | s :: ss => s.isPlain && Statement.arePlain ss
end

mutual
theorem Datum.nesting_eq_reach : (item : Datum) → item.path .nesting = item.path .reach
  | .number _ | .word _ | .atom _ => rfl
  | .list items => congrArg (1 + ·) (Datum.longest_nesting_eq_reach items)

theorem Datum.longest_nesting_eq_reach :
    (items : List Datum) → Datum.longest .nesting items = Datum.longest .reach items
  | [] => rfl
  | item :: items => congrArg₂ max item.nesting_eq_reach (Datum.longest_nesting_eq_reach items)
end

/-- The nesting of a chain of plain operands is the number of its links. -/
theorem Expr.nesting_le_links {tier : Tier} : (e : Expr) → e.isPlain = true → 0 < e.links tier →
    e.path .nesting ≤ e.links tier
  | .binary left operator right, hplain, hlinks => by
    have htier : operator.kind.tier = tier := by
      by_contra hne
      rw [Expr.links, if_neg hne] at hlinks
      exact absurd hlinks (Nat.lt_irrefl 0)
    simp only [Expr.isPlain, Bool.and_eq_true, beq_iff_eq, Bool.or_eq_true, decide_eq_true_eq,
      htier] at hplain
    obtain ⟨⟨hleft, hright⟩, hfirst⟩ := hplain
    change max (left.path .nesting) (right.path .nesting) + 1 ≤ _
    rw [Expr.links, if_pos htier]
    rcases hfirst with hzero | hchain
    · omega
    · have hle := Expr.nesting_le_links left hleft hchain
      omega
  | .number _, _, hlinks | .word _, _, hlinks | .reference _, _, hlinks | .missing, _, hlinks
  | .list _, _, hlinks | .query _ _, _, hlinks | .group _, _, hlinks =>
    absurd hlinks (Nat.lt_irrefl 0)

mutual
theorem Expr.nesting_le_reach : (e : Expr) → e.isPlain = true → e.path .nesting ≤ e.path .reach
  | .number _, _ | .word _, _ | .reference _, _ | .missing, _ => Nat.le_refl _
  | .list items, _ => (congrArg (1 + ·) (Datum.longest_nesting_eq_reach items)).le
  | .query _ inputs, hplain => Nat.add_le_add_left (Expr.longest_nesting_le_reach inputs hplain) 0
  | .group inner, hplain => Nat.add_le_add_left (inner.nesting_le_reach hplain) 1
  | .binary left operator right, hplain => by
    have hlinks : 0 < (Expr.binary left operator right).links operator.kind.tier := by
      rw [Expr.links, if_pos rfl]
      exact Nat.succ_pos _
    exact (Expr.nesting_le_links _ hplain hlinks).trans (Nat.le_max_left _ _)

theorem Expr.longest_nesting_le_reach : (es : List Expr) → Expr.arePlain es = true →
    Expr.longest .nesting es ≤ Expr.longest .reach es
  | [], _ => Nat.le_refl _
  | e :: es, hplain => by
    obtain ⟨he, hes⟩ := Bool.and_eq_true_iff.mp hplain
    exact max_le_max (e.nesting_le_reach he) (Expr.longest_nesting_le_reach es hes)
end

mutual
theorem Argument.nesting_le_reach : (a : Argument) → a.isPlain = true →
    a.path .nesting ≤ a.path .reach
  | .expr value, hplain => value.nesting_le_reach hplain
  | .block body, hplain =>
    Nat.add_le_add_left (Statement.longest_nesting_le_reach body hplain) 1

theorem Argument.longest_nesting_le_reach : (as : List Argument) → Argument.arePlain as = true →
    Argument.longest .nesting as ≤ Argument.longest .reach as
  | [], _ => Nat.le_refl _
  | a :: as, hplain => by
    obtain ⟨ha, has⟩ := Bool.and_eq_true_iff.mp hplain
    exact max_le_max (a.nesting_le_reach ha) (Argument.longest_nesting_le_reach as has)

theorem Statement.nesting_le_reach : (s : Statement) → s.isPlain = true →
    s.path .nesting ≤ s.path .reach
  | .command _ arguments, hplain =>
    Nat.add_le_add_left (Argument.longest_nesting_le_reach arguments hplain) 0
  | .setPosition _ _ value, hplain | .binding _ _ _ value, hplain =>
    Nat.add_le_add_left (value.nesting_le_reach hplain) 0
  | .definition _ _ _ _ body _, hplain =>
    Nat.add_le_add_left (Nat.add_le_add_left (Statement.longest_nesting_le_reach body hplain) 1) 0
  | .loop _ _ _ bounds body, hplain => by
    obtain ⟨hbounds, hbody⟩ := Bool.and_eq_true_iff.mp hplain
    exact Nat.add_le_add_left (max_le_max (Expr.longest_nesting_le_reach bounds hbounds)
      (Nat.add_le_add_left (Statement.longest_nesting_le_reach body hbody) 1)) 0
  | .call _ inputs, hplain =>
    Nat.add_le_add_left (Expr.longest_nesting_le_reach inputs hplain) 0

/-- Where the operands of chains are plain, the levels count all that is nested. -/
theorem Statement.longest_nesting_le_reach : (ss : List Statement) →
    Statement.arePlain ss = true → Statement.longest .nesting ss ≤ Statement.longest .reach ss
  | [], _ => Nat.le_refl _
  | s :: ss, hplain => by
    obtain ⟨hs, hss⟩ := Bool.and_eq_true_iff.mp hplain
    exact max_le_max (s.nesting_le_reach hs) (Statement.longest_nesting_le_reach ss hss)
end

end LogoServer
