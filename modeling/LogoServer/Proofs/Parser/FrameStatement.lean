import LogoServer.Proofs.Parser.Parentheses

/-! Statements are parsed before what goes on with no expression as at the end of the text. What
ends a block or a procedure stands inside it, so that its statements never see what follows. -/
namespace LogoServer.Parser

open Grammar

variable {c : Follow}

/-! ### Single tokens -/

theorem takeIf_frames {kind : Kind} (hkind : kind ≠ .eof) (hquiet : kind.endsExpr = false) :
    Frames c anyKind (takeIf kind) (takeIf kind) := by
  have htaken : Frames c (· = kind) (do return some (← take)) (do return some (← take)) :=
    (take_frames hkind.symm).map
  refine Frames.currentKind_bind (fun k _ _ => ?_) fun _ k hk => ?_
  · split_ifs with h
    · exact htaken.of_start fun _ h' => h'.trans h
    · exact .pure _
  · have hne : k ≠ kind := by
      rintro rfl
      rw [hk] at hquiet
      cases hquiet
    rw [if_neg hkind.symm, if_neg hne]
    exact .pure _

section Parameters

variable {α : Type} {kind : Kind} (hkind : kind ≠ .eof)
include hkind

theorem takeWhere_frames : Frames c (fun k => (k == kind) = true) take take :=
  take_frames (by simpa using hkind.symm)

theorem takeMany_frames (hquiet : ∀ k : Kind, k.endsExpr = true → (k == kind) = false) :
    Frames c anyKind (many (· == kind) take) (many (· == kind) take) :=
  many_frames (takeWhere_reads hkind) (by simpa using hkind.symm) hquiet (takeWhere_frames hkind)
    fun _ _ h => by simp [h.2]

/-- Tokens up to one that is expected. -/
theorem takeMany_bind_frames {closer : Kind} (hcloser : closer ≠ .eof) (hne : closer ≠ kind)
    {f g : List Token → Parser α} (hf : ∀ ts, Frames c anyKind (f ts) (g ts)) :
    Frames c anyKind
      (many (· == kind) take >>= fun ts => expect closer >>= fun _ => f ts)
      (many (· == kind) take >>= fun ts => expect closer >>= fun _ => g ts) where
  passes s hs _ := by
    obtain ⟨ns, hns⟩ := (takeMany_reads hkind).passes s hs trivial
    obtain ⟨ms, hms⟩ := (expect_reads hcloser).passes _ (hns.sound hs) trivial
    obtain ⟨ls, hls⟩ := (hf (outcome (many (· == kind) take) s).1).passes _
      (hms.sound (hns.sound hs)) trivial
    exact ⟨_, hns.trans (hms.trans hls)⟩
  agrees s s' hs hext _ hclean := by
    obtain ⟨ns, hns⟩ := (takeMany_reads hkind).passes s hs trivial
    have hs₁ := hns.sound hs
    obtain ⟨ms, hms⟩ := (expect_reads hcloser).passes _ hs₁ trivial
    obtain ⟨ls, hls⟩ := (hf (outcome (many (· == kind) take) s).1).passes _ (hms.sound hs₁) trivial
    have hexpected := hls.errors_eq_nil hclean
    have hclosing := kind_of_expect hs₁ hexpected
    obtain ⟨hbuilt, hext'⟩ := many_agrees (takeWhere_reads hkind) (by simpa using hkind.symm)
      (takeWhere_frames hkind) (fun _ _ h => by simp [h.2]) hs hext
      (hms.errors_eq_nil hexpected) fun t' ht' => by
        rw [ht'.current_eq hs₁ (by rw [hclosing]; exact hcloser), hclosing]
        simpa using hne
    have hrest := ((expect_frames hcloser).bind fun _ =>
      hf (outcome (many (· == kind) take) s).1).agrees _ _ hs₁ hext' trivial hclean
    change Agrees c _ (outcome (expect closer >>= fun _ => g (outcome (many (· == kind) take) s').1)
      (outcome (many (· == kind) take) s').2)
    rw [hbuilt]
    exact hrest

end Parameters

/-! ### Statements -/

section Body

variable {body : Body}
  (hbody : ∀ scope, scope ≠ .document → Frames c anyKind (body scope) (body scope))
include hbody

theorem block_frames : Frames c anyKind (block body) (block body) :=
  (expect_frames (by simp)).bind fun _ => (hbody .block (by simp)).bind fun _ =>
    (expect_frames (by simp)).bind fun _ => .pure _

theorem argument_frames (levels : Nat) (slot : Slot) :
    Frames c anyKind (argument levels body slot) (argument levels body slot) := by
  cases slot with
  | expr => exact (expr_frames le_rfl).map
  | block => exact (block_frames hbody).map

theorem arguments_frames (levels : Nat) (slots : List Slot) :
    Frames c anyKind (arguments levels body slots) (arguments levels body slots) := by
  induction slots with
  | nil => exact .pure _
  | cons slot slots ih =>
    exact (argument_frames hbody levels slot).bind fun _ => ih.bind fun _ => .pure _

theorem definition_frames (first : Token) (form : DefinitionForm) :
    Frames c anyKind (definition body first form) (definition body first form) := by
  rcases form with _ | _
  · have hquiet : ∀ k : Kind, k.endsExpr = true → (k == .colonName) = false := by
      rintro k hk
      cases k <;> first | rfl | cases hk
    exact (expect_frames (by simp)).bind fun _ => (takeMany_frames (by simp) hquiet).bind fun _ =>
      (hbody .procedure (by simp)).bind fun _ => (expect_frames (by simp)).bind fun _ => .pure _
  · exact (expect_frames (by simp)).bind fun _ => (expect_frames (by simp)).bind fun _ =>
      (expect_frames (by simp)).bind fun _ =>
      takeMany_bind_frames (by simp) (by simp) (by simp) fun _ => (block_frames hbody).bind fun _ =>
      (expect_frames (by simp)).bind fun _ => (takeIf_frames (by simp) rfl).bind fun _ => .pure _

omit hbody in
theorem binding_frames (levels : Nat) (first : Token) (form : BindingForm) :
    Frames c anyKind (binding levels first form) (binding levels first form) := by
  have hvalue : Frames c anyKind (expr levels) (expr levels) := expr_frames le_rfl
  have hword : Frames c anyKind (expect .word) (expect .word) := expect_frames (by simp)
  cases form with
  | name => exact hvalue.bind fun _ => hword.bind fun _ => .pure _
  | make | localmake => exact hword.bind fun _ => hvalue.bind fun _ => .pure _

theorem loop_frames (levels : Nat) (first : Token) (form : LoopForm) :
    Frames c anyKind (loop levels body first form) (loop levels body first form) :=
  (expect_frames (by simp)).bind fun _ => (expect_frames (by simp)).bind fun _ =>
    (inputs_frames (expr_reads levels) (expr_frames le_rfl) form.bounds).bind fun _ =>
    (expect_frames (by simp)).bind fun _ => (block_frames hbody).bind fun _ => .pure _

theorem statementOf_frames (levels : Nat) (form : StatementForm) :
    Frames c form.Starts (statementOf levels body form) (statementOf levels body form) := by
  refine (take_frames form.not_starts_eof).bind fun first => ?_
  cases form with
  | command slots => exact (arguments_frames hbody levels slots).map
  | setPosition =>
    exact (expect_frames (by simp)).bind fun _ => (expr_frames le_rfl).bind fun _ => .pure _
  | definition form => exact definition_frames hbody first form
  | binding form => exact binding_frames levels first form
  | loop form => exact loop_frames hbody levels first form
  | call =>
    exact (many_frames ((expr_reads levels).of_start fun _ _ => trivial) rfl
      (fun _ => Kind.startsExpr_of_endsExpr) ((expr_frames le_rfl).of_start fun _ _ => trivial)
      fun _ _ => Phrase.ne_nil).map

theorem statement_frames (levels : Nat) :
    Frames c (·.startsStatement = true) (statement levels body) (statement levels body) := by
  refine Frames.currentKind_bind (fun kind hkind _ => ?_) fun h => by cases h
  obtain ⟨form, hform⟩ := Option.isSome_iff_exists.mp hkind
  rw [hform]
  refine (statementOf_frames hbody levels form).of_start ?_
  rintro _ rfl
  exact StatementForm.starts_of_statementForm? hform

end Body

/-! ### Sequences -/

theorem closer_ne_eof {scope : Scope} (h : scope ≠ .document) : scope.closer ≠ .eof := by
  cases scope with
  | document => exact absurd rfl h
  | block | procedure => simp [Scope.closer]

/-- Without a complaint there is nothing to pass over. -/
theorem outcome_resume_of_clean {scope : Scope} {s : State} (hs : s.Sound)
    (hclean : (outcome (resume scope) s).2.errors = []) :
    scope.continues s.current.kind = true ∧ outcome (resume scope) s = ((), s) := by
  rcases resume_cases scope s with ⟨hcontinues, _⟩ | hastray
  · exact ⟨hcontinues, resume_stays hcontinues⟩
  · exact absurd hclean (hastray.errors_ne_nil hs)

theorem resume_frames {scope : Scope} (hscope : scope ≠ .document) :
    Frames c anyKind (resume scope) (resume scope) where
  passes := (resume_reads scope).passes
  agrees s s' hs hext _ hclean := by
    obtain ⟨hcontinues, hstays⟩ := outcome_resume_of_clean hs hclean
    have hne : s.current.kind ≠ .eof := by
      intro hk
      rw [hk] at hcontinues
      have hcloser : decide (Kind.eof = scope.closer) = true := hcontinues
      exact closer_ne_eof hscope (of_decide_eq_true hcloser).symm
    have hcontinues' : scope.continues s'.current.kind = true := by
      rw [hext.current_eq hs hne]
      exact hcontinues
    rw [hstays, resume_stays hcontinues']
    exact ⟨rfl, hext⟩

theorem sequence_frames {scope : Scope} (hscope : scope ≠ .document) {p : Parser Statement}
    (hreads : Reads (·.startsStatement = true) p .sentence)
    (hp : Frames c (·.startsStatement = true) p p) :
    Frames c anyKind (sequence scope p) (sequence scope p) where
  passes := (sequence_reads hreads).passes
  agrees s s' hs hext _ hclean := by
    have hend := sequence_stops hreads hs hclean
    obtain ⟨_, hpassage⟩ := (sequence_reads hreads).passes s hs trivial
    obtain ⟨_, hresume⟩ := (resume_reads scope).passes s hs trivial
    have hs₁ := hresume.sound hs
    have hreads' : Reads _ (item scope p) _ := item_reads hreads
    obtain ⟨_, hmany⟩ := (many_reads hreads').passes _ hs₁ trivial
    obtain ⟨_, hext₁⟩ := (resume_frames hscope).agrees s s' hs hext trivial
      (hmany.errors_eq_nil hclean)
    have hitem : Frames c (·.startsStatement = true) (item scope p) (item scope p) :=
      hp.bind fun _ => (resume_frames hscope).bind fun _ => .pure _
    have hne : (outcome (sequence scope p) s).2.current.kind ≠ .eof := by
      rw [hend]
      exact closer_ne_eof hscope
    exact many_agrees hreads' rfl hitem (fun _ _ h => h.ne_nil) hs₁ hext₁ hclean fun t' ht' => by
      have hcurrent := ht'.current_eq (hpassage.sound hs) hne
      have hkind : t'.current.kind = scope.closer := by
        rw [hcurrent]
        exact hend
      rw [hkind]
      cases scope <;> rfl

theorem statements_frames (levels : Nat) {scope : Scope} (hscope : scope ≠ .document) :
    Frames c anyKind (statements levels scope) (statements levels scope) := by
  induction levels generalizing scope with
  | zero => exact .of_astray (statementsTooDeep_astray scope)
  | succ levels ih =>
    exact (sequence_frames hscope (statement_reads (statements_reads levels) levels)
      (statement_frames (fun _ h => ih h) levels)).nested

end LogoServer.Parser
