import LogoServer.Proofs.Parser.Account
import LogoServer.Proofs.Parser.Grammar
import Mathlib.Tactic

/-! Accounts of repeated parsers: a loop keeps the account of its item for each item in turn. -/
namespace LogoServer

theorem Grammar.Each.append {α : Type} {R : α → List Token → Prop} {as bs : List α}
    {ts us : List Token} (h : Each R as ts) (h' : Each R bs us) : Each R (as ++ bs) (ts ++ us) := by
  induction h with
  | nil => exact h'
  | cons head _ ih =>
    rw [List.cons_append, List.append_assoc]
    exact .cons head ih

namespace Parser

open Grammar (Each)

variable {α β : Type} {A : Account α} {more : Kind → Bool} {item : Parser α}

namespace Account

def each (A : Account α) : Account (List α) :=
  ⟨Each A.always, Each A.clean⟩

/-- A condition on what is built, whatever the tokens. -/
def such (A : Account α) (condition : α → Prop) : Account α :=
  ⟨fun a ts => condition a ∧ A.always a ts, fun a ts => condition a ∧ A.clean a ts⟩

/-- What is built goes on from the things found before, newest first. -/
def behind (found : List α) (A : Account (List α)) : Account (List α) where
  always as ts := ∃ bs, as = found.reverse ++ bs ∧ A.always bs ts
  clean as ts := ∃ bs, as = found.reverse ++ bs ∧ A.clean bs ts

end Account

/-- One turn of the loop spends one element of the budget and reads one item. -/
theorem collect_reads (hitem : Reads (more · = true) item A) (budget : List β) (found : List α) :
    Reads anyKind (collect more item budget found)
      (.behind found (A.each.such (·.length ≤ budget.length))) := by
  induction budget generalizing found with
  | nil =>
    refine (Reads.pure _ _).mono ?_ ?_ <;>
      exact fun as ts h => ⟨[], by simpa using h.1, by simp, h.2 ▸ .nil⟩
  | cons _ budget ih =>
    refine Reads.currentKind_bind fun k _ => Reads.ite ?_ ?_
    · intro hk
      have hitem' : Reads (· = k) item A := hitem.of_start fun _ h => h ▸ hk
      refine (hitem'.bind fun a => ih (a :: found)).mono ?_ ?_
      all_goals
        rintro as ts ⟨a, us, vs, rfl, ha, bs, rfl, hlength, hbs⟩
        exact ⟨a :: bs, by simp, by simpa using hlength, .cons ha hbs⟩
    · intro _
      refine (Reads.pure _ _).mono ?_ ?_ <;>
        exact fun as ts h => ⟨[], by simpa using h.1, by simp, h.2 ▸ .nil⟩

theorem outcome_collect_cons (more : Kind → Bool) (item : Parser α) (b : β) (budget : List β)
    (found : List α) (s : State) :
    outcome (collect more item (b :: budget) found) s =
      if more s.current.kind then
        outcome (collect more item budget ((outcome item s).1 :: found)) (outcome item s).2
      else (found.reverse, s) := by
  change outcome (if more s.current.kind then _ else _) s = _
  rw [outcome_ite]
  rfl

/-- A parser that matches tokens shortens what is ahead. -/
theorem Reads.rest_lt {start : Kind → Prop} (hitem : Reads start item A)
    (hne : ∀ a ts, A.clean a ts → ts ≠ []) {s : State} (hs : s.Sound) (hk : start s.current.kind)
    (hclean : (outcome item s).2.errors = []) :
    (outcome item s).2.rest.length < s.rest.length := by
  obtain ⟨notes, hpassage, _, hbuilt⟩ := hitem s hs hk
  have hlength := congrArg List.length hpassage.rest_eq
  rw [hpassage.token?_eq_takenOf hs hclean, List.length_append] at hlength
  have htaken := List.length_pos_iff.mpr (hne _ _ (hbuilt hclean))
  omega

/-- Without a complaint a loop whose items match tokens does not end before a kind that fails the
test, and what its items leave behind holds at its end. -/
theorem collect_stops {P : State → Prop} (hitem : Reads (more · = true) item A)
    (hmore : more .eof = false) (hne : ∀ a ts, A.clean a ts → ts ≠ [])
    (hkeeps : ∀ s, s.Sound → more s.current.kind = true → (outcome item s).2.errors = [] →
      P (outcome item s).2) (budget : List β) (found : List α) {s : State} (hs : s.Sound)
    (hbudget : s.rest.length ≤ budget.length) (hP : P s)
    (hclean : (outcome (collect more item budget found) s).2.errors = []) :
    P (outcome (collect more item budget found) s).2 ∧
      more (outcome (collect more item budget found) s).2.current.kind = false := by
  induction budget generalizing found s with
  | nil =>
    have hrest : s.rest = [] := List.length_eq_zero_iff.mp (Nat.le_zero.mp hbudget)
    exact ⟨hP, State.kind_of_rest hs.eof_kind hrest ▸ hmore⟩
  | cons b budget ih =>
    rw [outcome_collect_cons] at hclean ⊢
    split_ifs at hclean ⊢ with hk
    · obtain ⟨_, hpassage, _, _⟩ := hitem s hs hk
      obtain ⟨_, hpassage', _, _⟩ := collect_reads hitem budget ((outcome item s).1 :: found)
        (outcome item s).2 (hpassage.sound hs) trivial
      have hclean' := hpassage'.errors_eq_nil hclean
      have hlength := hitem.rest_lt hne hs hk hclean'
      rw [List.length_cons] at hbudget
      exact ih _ (hpassage.sound hs) (by omega) (hkeeps s hs hk hclean') hclean
    · exact ⟨hP, by simpa using hk⟩

theorem many_reads (hitem : Reads (more · = true) item A) :
    Reads anyKind (many more item) A.each := by
  refine Reads.get_bind fun s => (collect_reads hitem s.rest []).mono ?_ ?_
  all_goals
    rintro as ts ⟨bs, rfl, -, h⟩
    simpa using h

theorem atMost_reads (hitem : Reads (more · = true) item A) (bound : Nat) :
    Reads anyKind (atMost bound more item) (A.each.such (·.length ≤ bound)) := by
  refine (collect_reads hitem (List.replicate bound ()) []).mono ?_ ?_
  all_goals
    rintro as ts ⟨bs, rfl, hlength, h⟩
    exact ⟨by simpa using hlength, by simpa using h⟩

theorem times_reads (hitem : Reads anyKind item A) (n : Nat) :
    Reads anyKind (times item n) (A.each.such (·.length = n)) := by
  induction n with
  | zero =>
    refine (Reads.pure _ _).mono ?_ ?_
    all_goals
      rintro as ts ⟨rfl, rfl⟩
      exact ⟨rfl, .nil⟩
  | succ n ih =>
    refine (hitem.bind fun a => ih.bind fun as => .pure _ _).mono ?_ ?_
    all_goals
      rintro _ ts ⟨a, us, _, rfl, ha, as, vs, _, rfl, ⟨hlength, has⟩, rfl, rfl⟩
      refine ⟨by simpa using hlength, ?_⟩
      rw [List.append_nil]
      exact Each.cons ha has

theorem inputs_reads {arity : Arity} (harity : arity.least ≤ arity.most)
    (hitem : Reads anyKind item A) :
    Reads anyKind (inputs arity item)
      (A.each.such fun as => arity.least ≤ as.length ∧ as.length ≤ arity.most) := by
  refine ((times_reads hitem arity.least).bind fun as =>
    (atMost_reads (hitem.of_start fun _ _ => trivial) _).bind fun bs => .pure _ _).mono ?_ ?_
  all_goals
    rintro _ ts ⟨as, us, _, rfl, ⟨hleast, has⟩, bs, vs, _, rfl, ⟨hmost, hbs⟩, rfl, rfl⟩
    refine ⟨?_, ?_⟩
    · change arity.least ≤ (as ++ bs).length ∧ (as ++ bs).length ≤ arity.most
      rw [List.length_append]
      omega
    · rw [List.append_nil]
      exact Each.append has hbs

end Parser

end LogoServer
