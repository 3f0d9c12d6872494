import LogoServer.Proofs.Parser.Complaints
import LogoServer.Proofs.Parser.Depth
import LogoServer.Proofs.Parser.Fences
import LogoServer.Proofs.Parser.Frame
import Mathlib.Tactic

/-! A parse that complains about nothing, and the same parse cut off at a lower nesting limit. The
second one keeps beside the first one: it passes over what the first one parses beyond the limit,
and complains about the limit alone. -/
namespace LogoServer

/-- A reporter of this kind may stand bare and takes inputs. -/
def Kind.takesInputs : Kind → Bool
  | .keyword k => k.queryArity?.any (0 < ·.most)
  | _ => false

namespace Parser

open Grammar

variable {α β : Type}

/-- No operand beyond the limit is a bare reporter that takes inputs: where a level is entered at
that depth, no such token is matched right behind. -/
def sparesReporters (limit : Nat) : List Note → Bool
  | .taken t :: .entered :: notes =>
    (depth notes != limit || !t.kind.takesInputs) && sparesReporters limit notes
  | _ :: notes => sparesReporters limit notes
  | [] => true

theorem takesInputs_of_suffix {limit : Nat} {journal notes : List Note} {t : Token}
    (h : sparesReporters limit journal = true)
    (hsuffix : Note.taken t :: Note.entered :: notes <:+ journal) (hdepth : depth notes = limit) :
    t.kind.takesInputs = false := by
  fun_induction sparesReporters limit journal with
  | case1 t' notes' ih =>
    rw [Bool.and_eq_true] at h
    rcases List.suffix_cons_iff.mp hsuffix with heq | hsuffix
    · simp only [List.cons.injEq, Note.taken.injEq, true_and] at heq
      obtain ⟨rfl, rfl⟩ := heq
      simpa [hdepth] using h.1
    · rcases List.suffix_cons_iff.mp hsuffix with heq | hsuffix
      · cases heq
      · exact ih h.2 hsuffix
  | case2 note notes' hne ih =>
    rcases List.suffix_cons_iff.mp hsuffix with heq | hsuffix
    · obtain ⟨rfl, rfl⟩ := List.cons.inj heq
      exact absurd rfl (hne t notes rfl)
    · exact ih h hsuffix
  | case3 => simp at hsuffix

/-! ### Journals only grow -/

/-- Notes are added to the journal and none is taken away. -/
class Grows (p : Parser α) : Prop where
  grows : ∀ s : State, s.journal <:+ (outcome p s).2.journal

theorem Nests.toGrows {levels : Nat} {P : α → Prop} {p : Parser α} (h : Nests levels P p) :
    Grows p :=
  ⟨fun s => (h.dive s).grows⟩

instance (a : α) : Grows (pure a : Parser α) :=
  ⟨fun _ => List.suffix_rfl⟩

instance (p : Parser α) (f : α → Parser β) [hp : Grows p] [hf : ∀ a, Grows (f a)] :
    Grows (p >>= f) :=
  ⟨fun s => (hp.grows s).trans ((hf _).grows _)⟩

instance : Grows currentKind :=
  ⟨fun _ => List.suffix_rfl⟩

instance (note : Note) : Grows (mark note) :=
  ⟨fun _ => List.suffix_cons _ _⟩

instance (p : Parser α) [Grows p] : Grows (nested p) :=
  inferInstanceAs (Grows (do
    mark .entered
    let a ← p
    mark .left
    return a))

instance : Grows take :=
  (take_nests : Nests 0 anything take).toGrows

instance (kind : Kind) : Grows (takeIf kind) :=
  (takeIf_nests kind : Nests 0 anything _).toGrows

instance (kind : Kind) : Grows (expect kind) :=
  (expect_nests kind : Nests 0 anything _).toGrows

instance : Grows complainTooDeep :=
  (complainTooDeep_nests : Nests 0 anything _).toGrows

instance (scope : Scope) : Grows (resume scope) :=
  (resume_nests scope : Nests 0 anything _).toGrows

instance (more : Kind → Bool) (item : Parser α) [hitem : Grows item] (budget : List β)
    (found : List α) : Grows (collect more item budget found) := by
  induction budget generalizing found with
  | nil => exact inferInstanceAs (Grows (pure found.reverse))
  | cons b budget ih =>
    refine ⟨fun s => ?_⟩
    rw [outcome_collect_cons]
    split_ifs
    · exact (hitem.grows s).trans ((ih _).grows _)
    · exact List.suffix_rfl

instance (more : Kind → Bool) (item : Parser α) [Grows item] : Grows (many more item) :=
  ⟨fun s => Grows.grows (p := collect more item s.rest []) s⟩

instance (bound : Nat) (more : Kind → Bool) (item : Parser α) [Grows item] :
    Grows (atMost bound more item) :=
  inferInstanceAs (Grows (collect more item (List.replicate bound ()) []))

instance (item : Parser α) [Grows item] (n : Nat) : Grows (times item n) := by
  induction n with
  | zero => exact inferInstanceAs (Grows (pure []))
  | succ n ih => exact inferInstanceAs (Grows (do return (← item) :: (← times item n)))

instance (arity : Arity) (item : Parser α) [Grows item] : Grows (inputs arity item) :=
  inferInstanceAs (Grows (do return (← times item arity.least) ++
    (← atMost (arity.most - arity.least) Kind.startsExpr item)))

instance (inner : Parser Datum) [Grows inner] : Grows (datum inner) := by
  unfold datum
  have hmatch (k : Kind) : Grows (match k with
      | .leftBracket => inner
      | .number => return .number (← take)
      | .word => return .word (← take)
      | _ => return .atom (← take)) := by
    split <;> infer_instance
  infer_instance

instance : Grows datumTooDeep :=
  (datumTooDeep_nests : Nests 0 _ datumTooDeep).toGrows

instance (levels : Nat) : Grows (dataList levels) :=
  (dataList_nests levels).toGrows

instance (levels : Nat) : Grows (primary levels) :=
  (primary_nests levels).toGrows

instance (levels : Nat) : Grows (chain Kind.isMultiplicative levels (primary levels)) :=
  (product_nests (primary_nests levels)).toGrows

instance (levels : Nat) : Grows (additiveOver levels (primary levels)) :=
  (additiveOver_nests (primary_nests levels)).toGrows

instance (levels : Nat) : Grows (expr levels) :=
  (expr_nests levels).toGrows

instance (levels : Nat) : Grows (enclosed (expr levels)) :=
  (enclosed_nests (expr_nests levels)).toGrows

instance (levels : Nat) (scope : Scope) : Grows (statements levels scope) :=
  (statements_nests levels scope).toGrows

instance (levels : Nat) : Grows (block (statements levels)) :=
  (block_nests (statements_nests levels)).toGrows

instance (levels : Nat) (slots : List Slot) :
    Grows (arguments levels (statements levels) slots) :=
  (arguments_nests (statements_nests levels) slots).toGrows

instance (levels : Nat) (keyword : Token) (form : DefinitionForm) :
    Grows (definition (statements levels) keyword form) :=
  (definition_nests (statements_nests levels) keyword form).toGrows

instance (levels : Nat) (keyword : Token) (form : BindingForm) :
    Grows (binding levels keyword form) :=
  (binding_nests keyword form).toGrows

instance (levels : Nat) (keyword : Token) (form : LoopForm) :
    Grows (loop levels (statements levels) keyword form) :=
  (loop_nests (statements_nests levels) keyword form).toGrows

instance (levels : Nat) : Grows (statement levels (statements levels)) :=
  (statement_nests (statements_nests levels)).toGrows

instance (scope : Scope) (p : Parser Statement) [Grows p] : Grows (item scope p) :=
  inferInstanceAs (Grows (do
    let s ← p
    resume scope
    return s))

/-! ### Two parses beside each other -/

/-- A parse without a complaint that a lower limit is to cut off. -/
structure Cut where
  limit : Nat
  /-- The journal at the end of the parse. -/
  journal : List Note
  clean : journal.filterMap Note.error? = []
  spares : sparesReporters limit journal = true

/-- Nothing was complained about but the nesting limit, and that at most once. -/
def State.Mild (s : State) : Prop :=
  s.tooDeep = false ∧ s.errors = [] ∨
    s.tooDeep = true ∧ ∃ e : SyntaxError, e.isTooDeep = true ∧ s.errors = [e]

theorem State.Mild.congr {s t : State} (hs : s.Mild) (htooDeep : t.tooDeep = s.tooDeep)
    (herrors : t.errors = s.errors) : t.Mild := by
  unfold State.Mild
  rw [htooDeep, herrors]
  exact hs

/-- The parse that is cut off has the same tokens ahead as the other one. So many levels are left to
it. -/
structure Beside (c : Cut) (levels : Nat) (s s' : State) : Prop where
  sound : s.Sound
  depth : depth s.journal + levels = c.limit
  rest : s'.rest = s.rest
  eof : s'.eof = s.eof
  mild : s'.Mild

variable {c : Cut} {levels : Nat}

theorem Cut.errors_eq_nil {s : State} (h : s.journal <:+ c.journal) : s.errors = [] := by
  have hsublist := (h.sublist.filterMap Note.error?)
  rw [c.clean, List.sublist_nil] at hsublist
  rw [State.errors, List.filterMap_reverse, hsublist, List.reverse_nil]

namespace Beside

variable {s s' : State}

theorem current_eq (h : Beside c levels s s') : s'.current = s.current := by
  rw [State.current, State.current, h.rest, h.eof]

theorem take (h : Beside c levels s s') :
    Beside c levels (outcome take s).2 (outcome take s').2 where
  sound := by
    refine ⟨h.sound.eof_kind, fun hrecovering => ?_, fun htooDeep => ?_⟩
    · exact absurd hrecovering Bool.false_ne_true
    · exact (State.errors_afterTaking s s.current s.rest.tail).symm ▸ h.sound.tooDeep htooDeep
  depth := h.depth
  rest := congrArg List.tail h.rest
  eof := h.eof
  mild := h.mild.congr rfl (State.errors_afterTaking s' s'.current s'.rest.tail)

theorem enter (h : Beside c (levels + 1) s s') :
    Beside c levels (s.afterMarking .entered) (s'.afterMarking .entered) where
  sound := (mark_passage .entered rfl rfl s).sound h.sound
  depth := by
    change Parser.depth s.journal + 1 + levels = c.limit
    have hdepth := h.depth
    omega
  rest := h.rest
  eof := h.eof
  mild := h.mild.congr rfl (State.errors_afterMarking s' rfl)

theorem leave (h : Beside c levels s s') (hlimit : levels < c.limit) :
    Beside c (levels + 1) (s.afterMarking .left) (s'.afterMarking .left) where
  sound := (mark_passage .left rfl rfl s).sound h.sound
  depth := by
    change Parser.depth s.journal - 1 + (levels + 1) = c.limit
    have hdepth := h.depth
    omega
  rest := h.rest
  eof := h.eof
  mild := h.mild.congr rfl (State.errors_afterMarking s' rfl)

end Beside

/-- Where the first parser complains about nothing and what it builds satisfies the condition, the
second one keeps beside it and builds something that is related. -/
def Tracks (c : Cut) (levels : Nat) (C : α → Prop) (R : α → α → Prop) (start : Kind → Prop)
    (p p' : Parser α) : Prop :=
  ∀ s s' : State, Beside c levels s s' → start s.current.kind →
    (outcome p s).2.journal <:+ c.journal → C (outcome p s).1 →
    R (outcome p s).1 (outcome p' s').1 ∧ Beside c levels (outcome p s).2 (outcome p' s').2

namespace Tracks

variable {C : α → Prop} {D : β → Prop} {R : α → α → Prop} {Q : β → β → Prop}
  {start : Kind → Prop} {p p' : Parser α}

theorem of_start {start' : Kind → Prop} (h : Tracks c levels C R start p p')
    (hstart : ∀ k, start' k → start k) : Tracks c levels C R start' p p' :=
  fun s s' hbeside hk => h s s' hbeside (hstart _ hk)

theorem pure {a a' : α} (h : R a a') :
    Tracks c levels C R start (Pure.pure a) (Pure.pure a') :=
  fun _ _ hbeside _ _ _ => ⟨h, hbeside⟩

/-- The condition on the whole has to give the one on the first part. -/
theorem bind {f f' : α → Parser β} [hgrows : ∀ a, Grows (f a)] (hp : Tracks c levels C R start p p')
    (hC : ∀ a s, D (outcome (f a) s).1 → C a)
    (hf : ∀ a a', R a a' → Tracks c levels D Q anyKind (f a) (f' a')) :
    Tracks c levels D Q start (p >>= f) (p' >>= f') := by
  intro s s' hbeside hk hjournal hD
  have hmiddle := ((hgrows (outcome p s).1).grows (outcome p s).2).trans hjournal
  obtain ⟨hR, hbeside'⟩ := hp s s' hbeside hk hmiddle (hC _ _ hD)
  exact hf _ _ hR _ _ hbeside' trivial hjournal hD

/-- A first part that gives the same in both parses. -/
theorem next {f f' : α → Parser β} [∀ a, Grows (f a)]
    (hp : Tracks c levels anything Eq start p p')
    (hf : ∀ a, Tracks c levels D Q anyKind (f a) (f' a)) :
    Tracks c levels D Q start (p >>= f) (p' >>= f') :=
  hp.bind (fun _ _ _ => trivial) fun a _ h => h ▸ hf a

theorem map {f f' : α → β} (hp : Tracks c levels C R start p p') (hC : ∀ a, D (f a) → C a)
    (hQ : ∀ a a', R a a' → Q (f a) (f' a')) :
    Tracks c levels D Q start (do return f (← p)) (do return f' (← p')) :=
  hp.bind (fun a _ => hC a) fun _ _ hR => .pure (hQ _ _ hR)

theorem currentKind_bind {f f' : Kind → Parser α}
    (h : ∀ k, start k → Tracks c levels C R (· = k) (f k) (f' k)) :
    Tracks c levels C R start (currentKind >>= f) (currentKind >>= f') := by
  intro s s' hbeside hk
  have hcurrent := hbeside.current_eq
  change (outcome (f s.current.kind) s).2.journal <:+ c.journal → C (outcome (f s.current.kind) s).1
    → R (outcome (f s.current.kind) s).1 (outcome (f' s'.current.kind) s').1 ∧
      Beside c levels (outcome (f s.current.kind) s).2 (outcome (f' s'.current.kind) s').2
  rw [hcurrent]
  exact h _ hk s s' hbeside rfl

theorem get_bind {f f' : List Token → Parser α}
    (h : ∀ budget, Tracks c levels C R start (f budget) (f' budget)) :
    Tracks c levels C R start (do f (← get).rest) (do f' (← get).rest) := by
  intro s s' hbeside
  change _ → (outcome (f s.rest) s).2.journal <:+ c.journal → C (outcome (f s.rest) s).1 →
    R (outcome (f s.rest) s).1 (outcome (f' s'.rest) s').1 ∧
      Beside c levels (outcome (f s.rest) s).2 (outcome (f' s'.rest) s').2
  rw [hbeside.rest]
  exact h s.rest s s' hbeside

theorem ite {test : Bool} {q q' : Parser α} (hp : test = true → Tracks c levels C R start p p')
    (hq : test = false → Tracks c levels C R start q q') :
    Tracks c levels C R start (if test then p else q) (if test then p' else q') := by
  cases test with
  | true => exact hp rfl
  | false => exact hq rfl

theorem nested (h : Tracks c levels C R start p p') :
    Tracks c (levels + 1) C R start (nested p) (nested p') := by
  intro s s' hbeside hk hjournal hC
  have hlimit : levels < c.limit := by
    have hdepth := hbeside.depth
    omega
  have hinner := (List.suffix_cons Note.left _).trans hjournal
  obtain ⟨hR, hbeside'⟩ := h _ _ hbeside.enter hk hinner hC
  exact ⟨hR, hbeside'.leave hlimit⟩

/-- A parser that always complains is never tracked. -/
theorem of_never {A : Account α} (hreads : Reads start p A) (hnever : ∀ a ts, ¬ A.clean a ts) :
    Tracks c levels C R start p p' := by
  intro s s' hbeside hk hjournal _
  obtain ⟨_, _, _, hbuilt⟩ := hreads s hbeside.sound hk
  exact absurd (hbuilt (Cut.errors_eq_nil hjournal)) (hnever _ _)

theorem of_astray (h : ∀ s, Astray s (outcome p s).2) : Tracks c levels C R start p p' :=
  of_never (A := ⟨fun _ _ => True, fun _ _ => False⟩)
    (.of_astray (fun s _ => h s) fun _ => trivial) fun _ _ => id

end Tracks

/-! ### Single tokens -/

theorem take_tracks {start : Kind → Prop} : Tracks c levels anything Eq start take take :=
  fun _ _ hbeside _ _ _ => ⟨hbeside.current_eq.symm, hbeside.take⟩

theorem expect_tracks (kind : Kind) :
    Tracks c levels anything Eq anyKind (expect kind) (expect kind) := by
  intro s s' hbeside _ hjournal _
  have hk := kind_of_expect hbeside.sound (Cut.errors_eq_nil hjournal)
  have hcurrent := hbeside.current_eq
  rw [outcome_expect, outcome_expect, if_pos hk, if_pos (hcurrent ▸ hk), hcurrent]
  exact ⟨rfl, hbeside.take⟩

theorem takeIf_tracks (kind : Kind) :
    Tracks c levels anything Eq anyKind (takeIf kind) (takeIf kind) := by
  refine .currentKind_bind fun k _ => ?_
  split_ifs
  · exact take_tracks.map (fun _ _ => trivial) fun _ _ => congrArg some
  · exact .pure rfl

/-- Without a complaint there is nothing to pass over. -/
theorem resume_tracks (scope : Scope) :
    Tracks c levels anything Eq anyKind (resume scope) (resume scope) := by
  intro s s' hbeside _ hjournal _
  rcases resume_cases scope s with ⟨hcontinues, heq⟩ | hastray
  · have heq' : (outcome (resume scope) s').2 = s' := by
      change (outcome (if scope.continues s'.current.kind then _ else _) s').2 = s'
      rw [hbeside.current_eq, if_pos hcontinues]
      rfl
    rw [heq, heq']
    exact ⟨rfl, hbeside⟩
  · exact absurd (Cut.errors_eq_nil hjournal) (hastray.errors_ne_nil hbeside.sound)

/-! ### Repetition -/

section Repetition

variable {C : α → Prop} {R : α → α → Prop} {more : Kind → Bool} {item item' : Parser α}

theorem mem_collect {budget : List β} {found : List α} {a : α} (ha : a ∈ found) (s : State) :
    a ∈ (outcome (collect more item budget found) s).1 := by
  obtain ⟨as, hbuilt, _⟩ := collect_turns more item budget found s
  rw [hbuilt]
  exact List.mem_append_left _ (List.mem_reverse.mpr ha)

variable [Grows item]

/-- The tokens ahead are the same, and so is the budget of a loop. -/
theorem collect_tracks (hitem : Tracks c levels C R (more · = true) item item') (budget : List β)
    {found found' : List α} (hfound : List.Forall₂ R found found') :
    Tracks c levels (fun as => ∀ a ∈ as, C a) (List.Forall₂ R) anyKind
      (collect more item budget found) (collect more item' budget found') := by
  induction budget generalizing found found' with
  | nil => exact .pure (List.rel_reverse hfound)
  | cons _ budget ih =>
    refine .currentKind_bind fun k _ => .ite (fun hk => ?_) fun _ => .pure (List.rel_reverse hfound)
    have hitem' : Tracks c levels C R (· = k) item item' := hitem.of_start fun _ h => h ▸ hk
    refine hitem'.bind (fun a s hC => ?_) fun a a' hR => ih (.cons hR hfound)
    exact hC a (mem_collect List.mem_cons_self s)

theorem many_tracks (hitem : Tracks c levels C R (more · = true) item item') :
    Tracks c levels (fun as => ∀ a ∈ as, C a) (List.Forall₂ R) anyKind (many more item)
      (many more item') :=
  .get_bind fun budget => collect_tracks hitem budget .nil

theorem times_tracks (hitem : Tracks c levels C R anyKind item item') (n : Nat) :
    Tracks c levels (fun as => ∀ a ∈ as, C a) (List.Forall₂ R) anyKind (times item n)
      (times item' n) := by
  induction n with
  | zero => exact .pure .nil
  | succ n ih =>
    refine hitem.bind (fun a s hC => hC a List.mem_cons_self) fun a a' ha => ?_
    exact ih.map (fun as hC b hb => hC b (List.mem_cons_of_mem a hb)) fun _ _ => .cons ha

theorem inputs_tracks (hitem : Tracks c levels C R anyKind item item') (arity : Arity) :
    Tracks c levels (fun as => ∀ a ∈ as, C a) (List.Forall₂ R) anyKind (inputs arity item)
      (inputs arity item') := by
  have hmore : Tracks c levels C R (Kind.startsExpr · = true) item item' :=
    hitem.of_start fun _ _ => trivial
  refine (times_tracks hitem arity.least).bind
    (fun as s hC a ha => hC a (List.mem_append_left _ ha)) fun as as' has => ?_
  exact (collect_tracks hmore _ .nil).map (fun bs hC b hb => hC b (List.mem_append_right _ hb))
    fun _ _ hbs => List.rel_append has hbs

end Repetition

/-! ### Passing over -/

/-- Nothing but what is ahead changes. -/
structure Quiet (s t : State) : Prop where
  eof : t.eof = s.eof
  tooDeep : t.tooDeep = s.tooDeep
  errors : t.errors = s.errors

theorem Quiet.trans {s t u : State} (h : Quiet s t) (h' : Quiet t u) : Quiet s u :=
  ⟨h'.eof.trans h.eof, h'.tooDeep.trans h.tooDeep, h'.errors.trans h.errors⟩

theorem Quiet.mild {s t : State} (h : Quiet s t) (hs : s.Mild) : t.Mild :=
  hs.congr h.tooDeep h.errors

theorem skip_quiet (n : Nat) (s : State) : Quiet s (outcome (skip n) s).2 :=
  ⟨rfl, rfl, errors_skip n s⟩

theorem skipConstruct_quiet (s : State) : Quiet s (outcome skipConstruct s).2 := by
  rw [outcome_skipConstruct]
  cases s.current.kind.closer? with
  | none => exact skip_quiet 1 s
  | some closer =>
    refine (skip_quiet 1 s).trans ((skip_quiet (closerOffset s.current.kind closer 0
      (outcome (skip 1) s).2.rest) _).trans ?_)
    dsimp only
    split_ifs
    · exact skip_quiet 1 _
    · exact ⟨rfl, rfl, rfl⟩

/-- The limit is reported once. -/
theorem complainTooDeep_mild {s : State} (hs : s.Mild) : (outcome complainTooDeep s).2.Mild := by
  rcases hs with ⟨htooDeep, herrors⟩ | ⟨htooDeep, e, he, herrors⟩
  · rw [complainTooDeep_first htooDeep]
    refine .inr ⟨rfl, .atToken s.tooDeepComplaint s.current, rfl, ?_⟩
    rw [State.errors_afterTooDeep, herrors, List.nil_append]
  · rw [complainTooDeep_again htooDeep]
    exact .inr ⟨htooDeep, e, he, herrors⟩

theorem Beside.complainTooDeep {s s' : State} (h : Beside c levels s s') :
    Beside c levels s (outcome complainTooDeep s').2 where
  sound := h.sound
  depth := h.depth
  rest := (rest_complainTooDeep s').trans h.rest
  eof := (eof_complainTooDeep s').trans h.eof
  mild := complainTooDeep_mild h.mild

theorem rest_skipConstruct_token {s : State} {t : Token} {rest : List Token}
    (hrest : s.rest = t :: rest) (ht : t.kind.closer? = none) :
    (outcome skipConstruct s).2.rest = rest := by
  have hcurrent : s.current = t := by simp [State.current, hrest]
  rw [outcome_skipConstruct, hcurrent, ht]
  change s.rest.drop 1 = rest
  rw [hrest]
  rfl

theorem rest_skipConstruct_enclosed {f : Fence} {s : State} {opening closing : Token}
    {ts rest : List Token} (hrest : s.rest = opening :: (ts ++ closing :: rest))
    (hopening : opening.kind = f.opener) (hcloser : f.opener.closer? = some f.closer)
    (hpasses : f.Passes ts) (hclosing : closing.kind = f.closer) :
    (outcome skipConstruct s).2.rest = rest := by
  have hoffset := hopening ▸ hpasses.closerOffset_eq hclosing rest
  rw [outcome_skipConstruct_of_offset hrest (hopening ▸ hcloser) hclosing hoffset]
  rfl

/-- The tokens that a parser without a complaint has matched stood ahead of it. -/
theorem Reads.matched {start : Kind → Prop} {p : Parser α} {A : Account α} (h : Reads start p A)
    {s : State} (hs : s.Sound) (hk : start s.current.kind) (hclean : (outcome p s).2.errors = []) :
    ∃ ts, A.clean (outcome p s).1 ts ∧ s.rest = ts ++ (outcome p s).2.rest := by
  obtain ⟨notes, hpassage, _, hbuilt⟩ := h s hs hk
  refine ⟨takenOf notes, hbuilt hclean, ?_⟩
  rw [← hpassage.token?_eq_takenOf hs hclean]
  exact hpassage.rest_eq

/-- A parser that passes over what another one parses keeps beside it if it leaves the same tokens
ahead. -/
theorem Tracks.of_skip {C : α → Prop} {R : α → α → Prop} {start : Kind → Prop} {p p' : Parser α}
    {A : Account α} {P : α → Prop} {l : Nat} (hreads : Reads start p A) (hnests : Nests l P p)
    (hquiet : ∀ s', s'.Mild → (outcome p' s').2.eof = s'.eof ∧ (outcome p' s').2.Mild)
    (hskip : ∀ s s' ts, Beside c levels s s' → start s.current.kind →
      (outcome p s).2.journal <:+ c.journal → C (outcome p s).1 → A.clean (outcome p s).1 ts →
      s'.rest = ts ++ (outcome p s).2.rest →
      R (outcome p s).1 (outcome p' s').1 ∧ (outcome p' s').2.rest = (outcome p s).2.rest) :
    Tracks c levels C R start p p' := by
  intro s s' hbeside hk hjournal hC
  have hclean := Cut.errors_eq_nil hjournal
  obtain ⟨ts, hts, hrest⟩ := hreads.matched hbeside.sound hk hclean
  obtain ⟨_, hpassage⟩ := hreads.passes s hbeside.sound hk
  obtain ⟨heof, hmild⟩ := hquiet s' hbeside.mild
  obtain ⟨hR, hrest'⟩ := hskip s s' ts hbeside hk hjournal hC hts (hbeside.rest.trans hrest)
  refine ⟨hR, hpassage.sound hbeside.sound, ?_, hrest', ?_, hmild⟩
  · rw [(hnests.dive s).returns]
    exact hbeside.depth
  · rw [heof, hpassage.eof_eq]
    exact hbeside.eof

end Parser

end LogoServer
