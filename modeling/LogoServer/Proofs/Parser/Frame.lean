import LogoServer.Proofs.Parser.Expr
import Mathlib.Tactic

/-! A parse of an expression that complains about nothing builds the same tree at the end of the text
as before a token that goes on with no expression, and with any number of further nesting levels.
Loops are followed turn by turn, since their budgets differ with what stands behind. -/
namespace LogoServer

/-- No expression goes on with the kind: it ends the text, closes a construct or starts a
statement. -/
def Kind.endsExpr (kind : Kind) : Bool :=
  kind = .eof || kind = .rightParen || kind = .rightBracket || kind.startsStatement

theorem Kind.startsExpr_of_endsExpr {kind : Kind} (h : kind.endsExpr = true) :
    kind.startsExpr = false := by
  cases kind with
  | keyword k => cases k <;> first | rfl | cases h
  | _ => first | rfl | cases h

theorem Kind.endsExpr_of_startsStatement {kind : Kind} (h : kind.startsStatement = true) :
    kind.endsExpr = true := by
  rw [endsExpr, h, Bool.or_true]

namespace Grammar

theorem Element.ne_nil {item : Datum} {ts : List Token} (h : Element item ts) : ts ≠ [] := by
  cases h <;> simp

/-- An expression begins with a token that can start one. -/
theorem Phrase.exists_start {tier : Tier} {e : Expr} {ts : List Token} :
    Phrase tier e ts → ∃ t us, ts = t :: us ∧ t.kind.startsExpr = true
  | .number ht | .word ht | .reference ht => ⟨_, _, rfl, by rw [ht]; rfl⟩
  | .list hopening _ _ | .enclosedQuery hopening _ _ _ _ | .group hopening _ _ =>
    ⟨_, _, rfl, by rw [hopening]; rfl⟩
  | .query ht harity _ _ _ => ⟨_, _, rfl, by rw [ht]; simp [Kind.startsExpr, harity]⟩
  | .single h => h.exists_start
  | .link hleft _ _ => by
    obtain ⟨t, us, rfl, ht⟩ := hleft.exists_start
    exact ⟨t, _, rfl, ht⟩

theorem Phrase.ne_nil {tier : Tier} {e : Expr} {ts : List Token} (h : Phrase tier e ts) :
    ts ≠ [] := by
  obtain ⟨t, us, rfl, _⟩ := h.exists_start
  exact List.cons_ne_nil t us

end Grammar

namespace Parser

open Grammar

variable {α β : Type}

/-- What stands behind a part of a text and goes on with no expression of it. -/
structure Follow where
  tail : List Token
  eof : Token
  quiet : (tail.headD eof).kind.endsExpr = true

variable {c : Follow}

theorem ne_eof_of_test {test : Kind → Bool} {kind : Kind} (heof : test .eof = false)
    (h : test kind = true) : kind ≠ .eof := by
  rintro rfl
  rw [heof] at h
  cases h

/-- Ahead of the second state are the tokens ahead of the first one and then what follows. -/
structure Extends (c : Follow) (s s' : State) : Prop where
  rest : s'.rest = s.rest ++ c.tail
  eof : s'.eof = c.eof
  errors : s'.errors = []

namespace Extends

variable {s s' : State}

theorem current_eq (h : Extends c s s') (hs : s.Sound) (hk : s.current.kind ≠ .eof) :
    s'.current = s.current := by
  obtain ⟨rest, hrest⟩ := s.exists_rest_of_kind_ne_eof hs.eof_kind hk
  unfold State.current
  rw [h.rest, hrest]
  rfl

theorem kind_of_eof (h : Extends c s s') (hk : s.current.kind = .eof) :
    s'.current.kind.endsExpr = true := by
  unfold State.current at hk ⊢
  rw [h.rest, h.eof]
  cases hrest : s.rest with
  | nil => exact c.quiet
  | cons t rest =>
    rw [hrest] at hk
    change t.kind.endsExpr = true
    rw [show t.kind = .eof from hk]
    rfl

/-- A test that nothing which may follow passes tells the same of both states. -/
theorem test (h : Extends c s s') (hs : s.Sound) {test : Kind → Bool}
    (hquiet : ∀ k : Kind, k.endsExpr = true → test k = false) :
    test s'.current.kind = test s.current.kind := by
  by_cases hk : s.current.kind = .eof
  · rw [hk, hquiet .eof rfl, hquiet _ (h.kind_of_eof hk)]
  · rw [h.current_eq hs hk]

theorem mark (h : Extends c s s') {note : Note} (herror : note.error? = none) :
    Extends c (s.afterMarking note) (s'.afterMarking note) :=
  ⟨h.rest, h.eof, (s'.errors_afterMarking herror).trans h.errors⟩

theorem take (h : Extends c s s') (hs : s.Sound) (hk : s.current.kind ≠ .eof) :
    Extends c (outcome take s).2 (outcome take s').2 := by
  obtain ⟨rest, hrest⟩ := s.exists_rest_of_kind_ne_eof hs.eof_kind hk
  refine ⟨?_, h.eof, ?_⟩
  · change s'.rest.tail = s.rest.tail ++ c.tail
    rw [h.rest, hrest]
    rfl
  · exact (State.errors_afterTaking s' s'.current s'.rest.tail).trans h.errors

end Extends

/-- The same is built, and the states that are left are alike in what is ahead. -/
def Agrees (c : Follow) (a b : α × State) : Prop :=
  b.1 = a.1 ∧ Extends c a.2 b.2

/-- Where the first parser complains about nothing, the second one does the same before what
follows. -/
structure Frames (c : Follow) (start : Kind → Prop) (p q : Parser α) : Prop where
  passes : ∀ s : State, s.Sound → start s.current.kind → ∃ notes, Passage s notes (outcome p s).2
  agrees : ∀ s s' : State, s.Sound → Extends c s s' → start s.current.kind →
    (outcome p s).2.errors = [] → Agrees c (outcome p s) (outcome q s')

theorem Reads.passes {start : Kind → Prop} {p : Parser α} {A : Account α} (h : Reads start p A)
    (s : State) (hs : s.Sound) (hk : start s.current.kind) :
    ∃ notes, Passage s notes (outcome p s).2 := by
  obtain ⟨notes, hpassage, _⟩ := h s hs hk
  exact ⟨notes, hpassage⟩

namespace Frames

variable {start : Kind → Prop} {p q : Parser α}

theorem of_start {start' : Kind → Prop} (h : Frames c start p q)
    (hstart : ∀ k, start' k → start k) : Frames c start' p q :=
  ⟨fun s hs hk => h.passes s hs (hstart _ hk),
    fun s s' hs hext hk => h.agrees s s' hs hext (hstart _ hk)⟩

theorem pure (a : α) : Frames c start (Pure.pure a) (Pure.pure a) :=
  ⟨fun s _ _ => ⟨[], .stay s⟩, fun _ _ _ hext _ _ => ⟨rfl, hext⟩⟩

theorem bind {f g : α → Parser β} (hp : Frames c start p q)
    (hf : ∀ a, Frames c anyKind (f a) (g a)) : Frames c start (p >>= f) (q >>= g) where
  passes s hs hk := by
    obtain ⟨ns, hns⟩ := hp.passes s hs hk
    obtain ⟨ms, hms⟩ := (hf (outcome p s).1).passes _ (hns.sound hs) trivial
    exact ⟨ns ++ ms, hns.trans hms⟩
  agrees s s' hs hext hk hclean := by
    obtain ⟨ns, hns⟩ := hp.passes s hs hk
    obtain ⟨ms, hms⟩ := (hf (outcome p s).1).passes _ (hns.sound hs) trivial
    obtain ⟨hbuilt, hext'⟩ := hp.agrees s s' hs hext hk (hms.errors_eq_nil hclean)
    rw [outcome_bind, outcome_bind, hbuilt]
    exact (hf (outcome p s).1).agrees _ _ (hns.sound hs) hext' trivial hclean

theorem map {f : α → β} (hp : Frames c start p q) :
    Frames c start (do return f (← p)) (do return f (← q)) :=
  hp.bind fun _ => .pure _

theorem nested (hp : Frames c start p q) : Frames c start (nested p) (nested q) where
  passes s hs hk := by
    have henter := mark_passage .entered rfl rfl s
    obtain ⟨notes, hpassage⟩ := hp.passes (s.afterMarking .entered) (henter.sound hs) hk
    exact ⟨_, henter.trans (hpassage.trans (mark_passage .left rfl rfl _))⟩
  agrees s s' hs hext hk hclean := by
    have henter := mark_passage .entered rfl rfl s
    have hleave := mark_passage .left rfl rfl (outcome p (s.afterMarking .entered)).2
    obtain ⟨hbuilt, hext'⟩ := hp.agrees _ _ (henter.sound hs) (hext.mark rfl) hk
      (hleave.errors_eq_nil hclean)
    exact ⟨hbuilt, hext'.mark rfl⟩

/-- A parser that always complains may be replaced by any other. -/
theorem of_never {A : Account α} (hreads : Reads start p A) (hnever : ∀ a ts, ¬ A.clean a ts) :
    Frames c start p q where
  passes := hreads.passes
  agrees s _ hs _ hk hclean := by
    obtain ⟨_, _, _, hbuilt⟩ := hreads s hs hk
    exact absurd (hbuilt hclean) (hnever _ _)

theorem of_astray (h : ∀ s, Astray s (outcome p s).2) : Frames c start p q :=
  of_never (A := ⟨fun _ _ => True, fun _ _ => False⟩)
    (.of_astray (fun s _ => h s) fun _ => trivial) fun _ _ => id

/-- At the end of the text the second parser may see what follows instead. -/
theorem currentKind_bind {f g : Kind → Parser α}
    (h : ∀ k, start k → k ≠ .eof → Frames c (· = k) (f k) (g k))
    (heof : start .eof → ∀ k : Kind, k.endsExpr = true → Frames c (· = .eof) (f .eof) (g k)) :
    Frames c start (currentKind >>= f) (currentKind >>= g) where
  passes s hs hk := by
    by_cases hk' : s.current.kind = .eof
    · have hpasses := (heof (hk' ▸ hk) .eof rfl).passes s hs hk'
      rwa [← hk'] at hpasses
    · exact (h _ hk hk').passes s hs rfl
  agrees s s' hs hext hk hclean := by
    change (outcome (f s.current.kind) s).2.errors = [] at hclean
    change Agrees c (outcome (f s.current.kind) s) (outcome (g s'.current.kind) s')
    by_cases hk' : s.current.kind = .eof
    · rw [hk'] at hclean ⊢
      exact (heof (hk' ▸ hk) _ (hext.kind_of_eof hk')).agrees s s' hs hext hk' hclean
    · rw [hext.current_eq hs hk']
      exact (h _ hk hk').agrees s s' hs hext rfl hclean

end Frames

/-! ### Single tokens -/

theorem take_frames {start : Kind → Prop} (hstart : ¬ start .eof) :
    Frames c start take take where
  passes := (take_reads start hstart).passes
  agrees s s' hs hext hk _ := by
    have hne : s.current.kind ≠ .eof := fun he => hstart (he ▸ hk)
    exact ⟨hext.current_eq hs hne, hext.take hs hne⟩

/-- Without a complaint the token that is expected is there. -/
theorem kind_of_expect {kind : Kind} {s : State} (hs : s.Sound)
    (hclean : (outcome (expect kind) s).2.errors = []) : s.current.kind = kind := by
  by_contra hk
  rw [outcome_expect, if_neg hk] at hclean
  split_ifs at hclean
  · have hastray := (complain_astray (.extraneous s.current.toLexeme [kind]) rfl s).trans
      fun h => skip_astray 1 h
    exact hastray.errors_ne_nil hs ((State.errors_afterTaking _ _ _).symm.trans hclean)
  · exact (complain_astray (.missing kind s.current.toLexeme) rfl s).errors_ne_nil hs hclean

theorem expect_frames {kind : Kind} (hkind : kind ≠ .eof) :
    Frames c anyKind (expect kind) (expect kind) where
  passes := (expect_reads hkind).passes
  agrees s s' hs hext _ hclean := by
    have hk := kind_of_expect hs hclean
    have hcurrent := hext.current_eq hs (hk ▸ hkind)
    rw [outcome_expect, outcome_expect, if_pos hk, if_pos (hcurrent ▸ hk), hcurrent]
    exact ⟨rfl, hext.take hs (hk ▸ hkind)⟩

/-! ### Repetition -/

/-- Turns of a loop, one for each item. -/
inductive Turns (more : Kind → Bool) (item : Parser α) : State → List α → State → Prop
  | done (s : State) : Turns more item s [] s
  | turn {s t : State} {as : List α} (hmore : more s.current.kind = true)
      (h : Turns more item (outcome item s).2 as t) :
      Turns more item s ((outcome item s).1 :: as) t

variable {more : Kind → Bool} {item item' : Parser α}

/-- A loop stops at a kind that fails the test, or when its budget is spent. -/
theorem collect_turns (more : Kind → Bool) (item : Parser α) (budget : List β) (found : List α)
    (s : State) :
    ∃ as, (outcome (collect more item budget found) s).1 = found.reverse ++ as ∧
      Turns more item s as (outcome (collect more item budget found) s).2 ∧
      as.length ≤ budget.length ∧ (as.length < budget.length →
        more (outcome (collect more item budget found) s).2.current.kind = false) := by
  induction budget generalizing found s with
  | nil => exact ⟨[], (List.append_nil _).symm, .done s, le_rfl, by simp⟩
  | cons b budget ih =>
    rw [outcome_collect_cons]
    split_ifs with hmore
    · obtain ⟨as, hbuilt, hturns, hle, hstop⟩ := ih ((outcome item s).1 :: found) (outcome item s).2
      refine ⟨_ :: as, by simp [hbuilt], .turn hmore hturns, by simpa using hle, fun hlt => ?_⟩
      exact hstop (by simpa using hlt)
    · exact ⟨[], by simp, .done s, by simp, fun _ => by simpa using hmore⟩

theorem collect_of_turns {s t : State} {as : List α} (h : Turns more item s as t)
    (budget : List β) (found : List α) (hle : as.length ≤ budget.length)
    (hstop : as.length < budget.length → more t.current.kind = false) :
    outcome (collect more item budget found) s = (found.reverse ++ as, t) := by
  induction h generalizing budget found with
  | done s =>
    cases budget with
    | nil => exact Prod.ext (List.append_nil _).symm rfl
    | cons b budget =>
      rw [outcome_collect_cons, if_neg (by simp [hstop])]
      simp
  | turn hmore _ ih =>
    cases budget with
    | nil => simp at hle
    | cons b budget =>
      rw [outcome_collect_cons, if_pos hmore,
        ih budget _ (by simpa using hle) (by simpa using hstop)]
      simp

namespace Turns

variable {A : Account α} {s s' t : State} {as : List α}

theorem passes (hitem : Reads (more · = true) item A) (h : Turns more item s as t)
    (hs : s.Sound) : ∃ notes, Passage s notes t := by
  induction h with
  | done s => exact ⟨[], .stay s⟩
  | turn hmore _ ih =>
    obtain ⟨ns, hns⟩ := hitem.passes _ hs hmore
    obtain ⟨ms, hms⟩ := ih (hns.sound hs)
    exact ⟨ns ++ ms, hns.trans hms⟩

theorem length_le (hitem : Reads (more · = true) item A) (hne : ∀ a ts, A.clean a ts → ts ≠ [])
    (h : Turns more item s as t) (hs : s.Sound) (hclean : t.errors = []) :
    as.length + t.rest.length ≤ s.rest.length := by
  induction h with
  | done s => simp
  | turn hmore h ih =>
    obtain ⟨_, hpassage⟩ := hitem.passes _ hs hmore
    obtain ⟨_, hpassage'⟩ := h.passes hitem (hpassage.sound hs)
    have hlt := hitem.rest_lt hne hs hmore (hpassage'.errors_eq_nil hclean)
    have hle := ih (hpassage.sound hs) hclean
    rw [List.length_cons]
    omega

/-- Turns go over to another item that agrees with the first one wherever `P` holds behind it,
which it does before each further turn. -/
theorem frame {P : State → Prop} (hreads : Reads (more · = true) item A)
    (hitem : ∀ s s' : State, s.Sound → Extends c s s' → more s.current.kind = true →
      (outcome item s).2.errors = [] → P (outcome item s).2 →
      Agrees c (outcome item s) (outcome item' s'))
    (hmore : ∀ s : State, more s.current.kind = true → P s) (heof : more .eof = false)
    (h : Turns more item s as t) (hs : s.Sound) (hext : Extends c s s') (hclean : t.errors = [])
    (hP : P t) : ∃ t', Turns more item' s' as t' ∧ Extends c t t' := by
  induction h generalizing s' with
  | done s => exact ⟨s', .done s', hext⟩
  | @turn s t as hk h ih =>
    obtain ⟨_, hpassage⟩ := hreads.passes _ hs hk
    obtain ⟨_, hpassage'⟩ := h.passes hreads (hpassage.sound hs)
    -- Either this turn was the last one, or the next one begins here.
    have hbehind : P (outcome item s).2 := by
      cases h with
      | done => exact hP
      | turn hk' _ => exact hmore _ hk'
    obtain ⟨hbuilt, hext'⟩ := hitem s s' hs hext hk (hpassage'.errors_eq_nil hclean) hbehind
    obtain ⟨t', hturns, hext''⟩ := ih (hpassage.sound hs) hext' hclean hP
    refine ⟨t', ?_, hext''⟩
    rw [← hbuilt]
    exact .turn (by rwa [hext.current_eq hs (ne_eof_of_test heof hk)]) hturns

theorem carry (hreads : Reads (more · = true) item A)
    (hitem : Frames c (more · = true) item item') (heof : more .eof = false)
    (h : Turns more item s as t) (hs : s.Sound) (hext : Extends c s s') (hclean : t.errors = []) :
    ∃ t', Turns more item' s' as t' ∧ Extends c t t' :=
  h.frame (P := fun _ => True) hreads
    (fun s s' hs hext hk hclean _ => hitem.agrees s s' hs hext hk hclean) (fun _ _ => trivial)
    heof hs hext hclean trivial

end Turns

section Loops

variable {A : Account α} (hreads : Reads (more · = true) item A) (heof : more .eof = false)
include hreads heof

/-- A loop without a bound of its own, which stops in both places. -/
theorem many_agrees (hitem : Frames c (more · = true) item item')
    (hne : ∀ a ts, A.clean a ts → ts ≠ []) {s s' : State} (hs : s.Sound) (hext : Extends c s s')
    (hclean : (outcome (many more item) s).2.errors = [])
    (hstop : ∀ t', Extends c (outcome (many more item) s).2 t' → more t'.current.kind = false) :
    Agrees c (outcome (many more item) s) (outcome (many more item') s') := by
  obtain ⟨as, hbuilt, hturns, _, _⟩ := collect_turns more item s.rest [] s
  obtain ⟨t', hturns', hext'⟩ := hturns.carry hreads hitem heof hs hext hclean
  have hle := hturns.length_le hreads hne hs hclean
  have hle' : as.length ≤ s'.rest.length := by
    rw [hext.rest, List.length_append]
    omega
  have hcollect := collect_of_turns hturns' s'.rest [] hle' fun _ => hstop t' hext'
  change Agrees c (outcome (collect more item s.rest []) s)
    (outcome (collect more item' s'.rest []) s')
  rw [hcollect]
  exact ⟨hbuilt.symm, hext'⟩

theorem many_stops (hne : ∀ a ts, A.clean a ts → ts ≠ []) {s : State} (hs : s.Sound)
    (hclean : (outcome (many more item) s).2.errors = []) :
    more (outcome (many more item) s).2.current.kind = false :=
  (collect_stops (P := fun _ => True) hreads heof hne (fun _ _ _ _ => trivial) s.rest [] hs le_rfl
    trivial hclean).2

theorem many_frames (hquiet : ∀ k : Kind, k.endsExpr = true → more k = false)
    (hitem : Frames c (more · = true) item item') (hne : ∀ a ts, A.clean a ts → ts ≠ []) :
    Frames c anyKind (many more item) (many more item') where
  passes := (many_reads hreads).passes
  agrees s s' hs hext _ hclean := by
    refine many_agrees hreads heof hitem hne hs hext hclean fun t' hext' => ?_
    obtain ⟨_, hpassage⟩ := (many_reads hreads).passes s hs trivial
    rw [hext'.test (hpassage.sound hs) hquiet]
    exact many_stops hreads heof hne hs hclean

theorem atMost_frames (hquiet : ∀ k : Kind, k.endsExpr = true → more k = false)
    (hitem : Frames c (more · = true) item item') (bound : Nat) :
    Frames c anyKind (atMost bound more item) (atMost bound more item') where
  passes := (atMost_reads hreads bound).passes
  agrees s s' hs hext _ hclean := by
    obtain ⟨as, hbuilt, hturns, hle, hstop⟩ :=
      collect_turns more item (List.replicate bound ()) [] s
    obtain ⟨t', hturns', hext'⟩ := hturns.carry hreads hitem heof hs hext hclean
    obtain ⟨_, hpassage⟩ := (atMost_reads hreads bound).passes s hs trivial
    have hcollect := collect_of_turns hturns' (List.replicate bound ()) [] hle fun hlt => by
      rw [hext'.test (hpassage.sound hs) hquiet]
      exact hstop hlt
    change Agrees c _ (outcome (collect more item' (List.replicate bound ()) []) s')
    rw [hcollect]
    exact ⟨hbuilt.symm, hext'⟩

end Loops

theorem times_frames (hitem : Frames c anyKind item item') (n : Nat) :
    Frames c anyKind (times item n) (times item' n) := by
  induction n with
  | zero => exact .pure _
  | succ n ih => exact hitem.bind fun _ => ih.bind fun _ => .pure _

theorem inputs_frames {A : Account α} (hreads : Reads anyKind item A)
    (hitem : Frames c anyKind item item') (arity : Arity) :
    Frames c anyKind (inputs arity item) (inputs arity item') := by
  have hreads' : Reads (Kind.startsExpr · = true) item A := hreads.of_start fun _ _ => trivial
  have hitem' : Frames c (Kind.startsExpr · = true) item item' :=
    hitem.of_start fun _ _ => trivial
  exact (times_frames hitem _).bind fun _ =>
    (atMost_frames hreads' rfl (fun _ => Kind.startsExpr_of_endsExpr) hitem' _).bind fun _ => .pure _

/-! ### Literal lists -/

theorem datum_frames {inner inner' : Parser Datum}
    (hinner : Frames c (· = .leftBracket) inner inner') :
    Frames c (fun kind => (kind != .rightBracket && kind != .eof) = true) (datum inner)
      (datum inner') := by
  refine Frames.currentKind_bind (fun k _ hne => ?_) (by simp)
  have htake {build : Token → Datum} :
      Frames c (· = k) (do return build (← take)) (do return build (← take)) :=
    (take_frames hne.symm).map
  cases k with
  | leftBracket => exact hinner
  | _ => exact htake

/-- The bracket that closes a list is one of its own, so it ends the list before anything else. -/
theorem bracketed_frames {inner inner' : Parser Datum}
    (hreads : Reads (· = .leftBracket) inner .element)
    (hinner : Frames c (· = .leftBracket) inner inner') :
    Frames c (· = .leftBracket) (bracketed inner) (bracketed inner') where
  passes := (bracketed_reads hreads).passes
  agrees s s' hs hext hk hclean := by
    have hne : s.current.kind ≠ .eof := by simp [hk]
    have hopen := hext.take hs hne
    have hs₁ := (take_passage hs hne).sound hs
    let items := many (fun kind => kind != .rightBracket && kind != .eof) (datum inner)
    obtain ⟨_, hpassage⟩ := (many_reads (datum_reads hreads)).passes _ hs₁ trivial
    change (outcome (expect .rightBracket) (outcome items (outcome take s).2).2).2.errors = []
      at hclean
    obtain ⟨_, hpassage'⟩ := (expect_reads (show Kind.rightBracket ≠ .eof by simp)).passes
      _ (hpassage.sound hs₁) trivial
    have hclosing := kind_of_expect (hpassage.sound hs₁) hclean
    obtain ⟨hbuilt, hext'⟩ := many_agrees (datum_reads hreads) rfl (datum_frames hinner)
      (fun _ _ => Element.ne_nil) hs₁ hopen (hpassage'.errors_eq_nil hclean) fun t' ht' => by
        rw [ht'.current_eq (hpassage.sound hs₁) (by simp [hclosing]), hclosing]
        rfl
    exact ⟨hbuilt, ((expect_frames (by simp)).agrees _ _ (hpassage.sound hs₁) hext' trivial
      hclean).2⟩

theorem dataList_frames {levels levels' : Nat} (hle : levels ≤ levels') :
    Frames c (· = .leftBracket) (dataList levels) (dataList levels') := by
  induction levels generalizing levels' with
  | zero =>
    have hinner {inner : Parser Datum} : Frames c (· = .leftBracket) datumTooDeep inner :=
      .of_astray datumTooDeep_astray
    cases levels' with
    | zero => exact bracketed_frames datumTooDeep_reads hinner
    | succ levels' => exact bracketed_frames datumTooDeep_reads hinner
  | succ levels ih =>
    cases levels' with
    | zero => omega
    | succ levels' =>
      exact bracketed_frames (list_reads (dataList_reads levels)).nested (ih (by omega)).map.nested

/-! ### Operators -/

theorem joins_of_endsExpr (tier : Tier) (kind : Kind) (h : kind.endsExpr = true) :
    tier.joins kind = false := by
  cases tier <;> cases kind <;> first | rfl | cases h

theorem outcome_chainLinks_cons (isOperator : Kind → Bool) (operand : Parser Expr) (b : Token)
    (budget : List Token) (room : Nat) (left : Expr) (s : State) :
    outcome (chainLinks isOperator operand (b :: budget) room left) s =
      if isOperator s.current.kind then
        let (right, t) := outcome operand (outcome take s).2
        match room with
        | 0 => outcome (chainLinks isOperator operand budget 0 left) (outcome complainTooDeep t).2
        | room + 1 =>
          outcome (chainLinks isOperator operand budget room (.binary left s.current right)) t
      else (left, s) := by
  change outcome (if isOperator s.current.kind then _ else _) s = _
  rw [outcome_ite]
  cases room <;> rfl

theorem outcome_chain (isOperator : Kind → Bool) (levels : Nat) (operand : Parser Expr)
    (s : State) :
    outcome (chain isOperator levels operand) s =
      outcome (chainLinks isOperator operand (outcome operand s).2.rest levels
        (outcome operand s).1) (outcome operand s).2 := rfl

theorem chainLinks_stays {isOperator : Kind → Bool} {s : State}
    (h : isOperator s.current.kind = false) (operand : Parser Expr) (budget : List Token)
    (room : Nat) (left : Expr) :
    outcome (chainLinks isOperator operand budget room left) s = (left, s) := by
  cases budget with
  | nil => rfl
  | cons b budget => rw [outcome_chainLinks_cons, if_neg (by simp [h])]

section Chain

variable {tier : Tier} {operand operand' : Parser Expr}

theorem chainLinks_agrees_of_stays {s s' : State} (hs : s.Sound) (hext : Extends c s s')
    (h : tier.joins s.current.kind = false) {budget budget' : List Token} {room room' : Nat}
    {left : Expr} :
    Agrees c (outcome (chainLinks tier.joins operand budget room left) s)
      (outcome (chainLinks tier.joins operand' budget' room' left) s') := by
  have htest := hext.test hs (joins_of_endsExpr tier)
  rw [chainLinks_stays h, chainLinks_stays (htest.trans h)]
  exact ⟨rfl, hext⟩

variable (hreads : Reads anyKind operand (.phrase tier.tighter))
include hreads

/-- An operator and its operand leave fewer tokens ahead. -/
theorem operand_behind {s : State} (hs : s.Sound) (hk : tier.joins s.current.kind = true) :
    (outcome take s).2.Sound ∧ (outcome operand (outcome take s).2).2.Sound ∧
      (outcome operand (outcome take s).2).2.rest.length < s.rest.length := by
  have hne := ne_eof_of_test (joins_eof tier) hk
  obtain ⟨rest, hrest⟩ := s.exists_rest_of_kind_ne_eof hs.eof_kind hne
  have hs₁ := (take_passage hs hne).sound hs
  obtain ⟨_, hpassage⟩ := hreads.passes _ hs₁ trivial
  refine ⟨hs₁, hpassage.sound hs₁, ?_⟩
  have hle := hpassage.rest_le
  change _ ≤ s.rest.tail.length at hle
  rw [hrest] at hle ⊢
  exact Nat.lt_succ_of_le hle

/-- Links that are not complained about stand behind what was not complained about. -/
theorem errors_before_chainLinks {budget : List Token} {room : Nat} {left : Expr} {s : State}
    (hs : s.Sound)
    (hclean : (outcome (chainLinks tier.joins operand budget room left) s).2.errors = []) :
    s.errors = [] := by
  obtain ⟨_, hlinks⟩ := (chainLinks_reads hreads budget room left).passes s hs trivial
  exact hlinks.errors_eq_nil hclean

/-- A link for which there is no room is complained about. -/
theorem errors_chainLinks {s : State} (hs : s.Sound) (hk : tier.joins s.current.kind = true)
    (b : Token) (budget : List Token) (left : Expr) :
    (outcome (chainLinks tier.joins operand (b :: budget) 0 left) s).2.errors ≠ [] := by
  obtain ⟨-, hs₂, -⟩ := operand_behind hreads hs hk
  have hastray := complainTooDeep_astray (outcome operand (outcome take s).2).2
  obtain ⟨_, hpassage, _⟩ := id hastray
  rw [outcome_chainLinks_cons, if_pos hk]
  intro hclean
  exact hastray.errors_ne_nil hs₂ (errors_before_chainLinks hreads (hpassage.sound hs₂) hclean)

/-- More room than the links need changes nothing. -/
theorem chainLinks_agrees (hoperand : Frames c anyKind operand operand')
    {budget budget' : List Token} {room room' : Nat} (hroom : room ≤ room') (left : Expr)
    {s s' : State} (hs : s.Sound) (hext : Extends c s s')
    (hbudget : s.rest.length ≤ budget.length) (hbudget' : s.rest.length ≤ budget'.length)
    (hclean : (outcome (chainLinks tier.joins operand budget room left) s).2.errors = []) :
    Agrees c (outcome (chainLinks tier.joins operand budget room left) s)
      (outcome (chainLinks tier.joins operand' budget' room' left) s') := by
  induction budget generalizing budget' room room' left s s' with
  | nil =>
    have hrest : s.rest = [] := List.length_eq_zero_iff.mp (Nat.le_zero.mp hbudget)
    exact chainLinks_agrees_of_stays hs hext (State.kind_of_rest hs.eof_kind hrest ▸ joins_eof tier)
  | cons b budget ih =>
    cases hk : tier.joins s.current.kind with
    | false => exact chainLinks_agrees_of_stays hs hext hk
    | true =>
      have hne := ne_eof_of_test (joins_eof tier) hk
      -- A link takes its operator, so both budgets last as long as the tokens.
      obtain ⟨hs₁, hs₂, hlength⟩ := operand_behind hreads hs hk
      rw [List.length_cons] at hbudget
      cases room with
      | zero => exact absurd hclean (errors_chainLinks hreads hs hk b budget left)
      | succ room =>
        rw [outcome_chainLinks_cons, if_pos hk] at hclean ⊢
        dsimp only at hclean ⊢
        obtain ⟨hright, hext'⟩ := hoperand.agrees _ _ hs₁ (hext.take hs hne) trivial
          (errors_before_chainLinks hreads hs₂ hclean)
        obtain ⟨b', budget', rfl⟩ := List.exists_cons_of_length_pos (by omega : 0 < budget'.length)
        obtain ⟨room', rfl⟩ := Nat.exists_eq_add_of_le' (by omega : 1 ≤ room')
        have hcurrent := hext.current_eq hs hne
        rw [outcome_chainLinks_cons, if_pos (hcurrent ▸ hk)]
        dsimp only
        rw [hright, hcurrent]
        rw [List.length_cons] at hbudget'
        exact ih (by omega) _ hs₂ hext' (by omega) (by omega) hclean

end Chain

theorem chain_frames (tier : Tier) {operand operand' : Parser Expr}
    (hreads : Reads anyKind operand (.phrase tier.tighter))
    (hoperand : Frames c anyKind operand operand') {levels levels' : Nat}
    (hle : levels ≤ levels') :
    Frames c anyKind (chain tier.joins levels operand) (chain tier.joins levels' operand') where
  passes := (chain_reads tier hreads levels).passes
  agrees s s' hs hext _ hclean := by
    obtain ⟨_, hpassage⟩ := hreads.passes s hs trivial
    have hs₁ := hpassage.sound hs
    obtain ⟨hfirst, hext'⟩ := hoperand.agrees s s' hs hext trivial
      (errors_before_chainLinks hreads hs₁ hclean)
    rw [outcome_chain, outcome_chain, hfirst]
    refine chainLinks_agrees hreads hoperand hle _ hs₁ hext' le_rfl ?_ hclean
    rw [hext'.rest, List.length_append]
    exact Nat.le_add_right _ _

section Levels

variable {operand operand' : Parser Expr} (hreads : Reads anyKind operand (.phrase .factor))
  (hoperand : Frames c anyKind operand operand') {levels levels' : Nat} (hle : levels ≤ levels')
include hreads hoperand hle

theorem additiveOver_frames :
    Frames c anyKind (additiveOver levels operand) (additiveOver levels' operand') := by
  have hproduct := chain_reads .product hreads levels
  exact chain_frames .sum hproduct (chain_frames .product hreads hoperand hle) hle

theorem exprOver_frames :
    Frames c anyKind (exprOver levels operand) (exprOver levels' operand') := by
  have hsum := additiveOver_reads hreads levels
  exact chain_frames .comparison hsum (additiveOver_frames hreads hoperand hle) hle

end Levels

/-! ### Operands -/

theorem query_frames {arity : Arity} {input input' : Parser Expr}
    (hreads : Reads anyKind input (.phrase .sum)) (hinput : Frames c anyKind input input')
    (k : Keyword) : Frames c (· = .keyword k) (query arity input) (query arity input') :=
  (take_frames (by simp)).bind fun _ => (inputs_frames hreads hinput arity).bind fun _ => .pure _

/-- An expression that is not complained about starts as one. -/
theorem startsExpr_of_clean {tier : Tier} {p : Parser Expr} (hp : Reads anyKind p (.phrase tier))
    {s : State} (hs : s.Sound) (hclean : (outcome p s).2.errors = []) :
    s.current.kind.startsExpr = true := by
  obtain ⟨notes, hpassage, _, hphrase⟩ := hp s hs trivial
  obtain ⟨t, us, htaken, ht⟩ := (hphrase hclean).exists_start
  have hrest := hpassage.rest_eq
  rw [hpassage.token?_eq_takenOf hs hclean, htaken] at hrest
  rw [State.current, hrest]
  exact ht

section Inner

variable {inner inner' : Parser Expr} (hreads : Reads anyKind inner (.phrase .comparison))
  (hinner : Frames c anyKind inner inner')
include hreads hinner

theorem enclosed_frames : Frames c anyKind (enclosed inner) (enclosed inner') := by
  have hgroup {start : Kind → Prop} :
      Frames c start (do return Expr.group (← inner)) (do return Expr.group (← inner')) :=
    (hinner.of_start fun _ _ => trivial).map
  have hquery (k : Keyword) : Frames c (· = .keyword k)
      (do return Expr.query (← take) (← many Kind.startsExpr inner))
      (do return Expr.query (← take) (← many Kind.startsExpr inner')) := by
    refine (take_frames (by simp)).bind fun _ => ?_
    exact (many_frames (hreads.of_start fun _ _ => trivial) rfl
      (fun _ => Kind.startsExpr_of_endsExpr)
      (hinner.of_start fun _ _ => trivial) fun _ _ => Phrase.ne_nil).map
  have hnever {q : Parser Expr} : Frames c (· = .eof) (do return Expr.group (← inner)) q := by
    refine ⟨fun s hs _ => hreads.passes s hs trivial, fun s _ hs _ hk hclean => ?_⟩
    have hstarts := startsExpr_of_clean hreads hs hclean
    rw [hk] at hstarts
    cases hstarts
  refine Frames.currentKind_bind (fun k _ _ => ?_) fun _ _ _ => hnever
  cases k with
  | keyword k =>
    dsimp only
    split_ifs
    · exact hquery k
    · exact hgroup
  | _ => exact hgroup

theorem parenthesized_frames :
    Frames c (· = .leftParen) (parenthesized inner) (parenthesized inner') :=
  (take_frames (by simp)).bind fun _ => (enclosed_frames hreads hinner).bind fun _ =>
    (expect_frames (by simp)).bind fun _ => .pure _

end Inner

theorem term_frames {levels levels' : Nat} (hle : levels ≤ levels') {operand operand' : Parser Expr}
    (hreads : Reads anyKind operand (.phrase .factor))
    (hoperand : Frames c anyKind operand operand') :
    Frames c anyKind (term levels operand) (term levels' operand') := by
  have hmissing {start : Kind → Prop} {q : Parser Expr} :
      Frames c start (missingExpr operand) q :=
    .of_never ((missingExpr_reads hreads).of_start fun _ _ => trivial) fun _ _ => id
  refine Frames.currentKind_bind (fun k _ hne => ?_) fun _ _ _ => hmissing
  have htake {build : Token → Expr} :
      Frames c (· = k) (do return build (← take)) (do return build (← take)) :=
    (take_frames hne.symm).map
  cases k with
  | number => exact htake
  | word => exact htake
  | colonName => exact htake
  | leftBracket => exact (dataList_frames hle).map
  | leftParen =>
    exact parenthesized_frames (exprOver_reads hreads levels) (exprOver_frames hreads hoperand hle)
  | keyword k =>
    dsimp only
    cases k.queryArity? with
    | none => exact hmissing
    | some arity =>
      exact query_frames (additiveOver_reads hreads levels)
        (additiveOver_frames hreads hoperand hle) k
  | _ => exact hmissing

/-- More nesting levels than were needed, and a closing parenthesis behind, change nothing. -/
theorem primary_frames {levels levels' : Nat} (hle : levels ≤ levels') :
    Frames c anyKind (primary levels) (primary levels') := by
  induction levels generalizing levels' with
  | zero => exact .of_astray primaryTooDeep_astray
  | succ levels ih =>
    obtain ⟨levels', rfl⟩ := Nat.exists_eq_add_of_le' (by omega : 1 ≤ levels')
    exact (term_frames (by omega) (primary_reads levels) (ih (by omega))).nested

theorem expr_frames {levels levels' : Nat} (hle : levels ≤ levels') :
    Frames c anyKind (expr levels) (expr levels') :=
  exprOver_frames (primary_reads levels) (primary_frames hle) hle

end Parser

end LogoServer
