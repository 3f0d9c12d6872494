import LogoServer.Proofs.Parser.FrameStatement
import LogoServer.Proofs.Parser.Progress
import LogoServer.Proofs.Parser.Relocate

/-! One document behind another. A first document without an error is parsed as it stands alone,
stray closers behind it are passed over with one complaint, and the second document is parsed as if
nothing stood before it. -/
namespace LogoServer

namespace Parser

open Parsed (runTokens)

theorem Passage.limit_eq {s t : State} {notes : List Note} (h : Passage s notes t) :
    t.limit = s.limit := by
  induction h with
  | stay s => rfl
  | tooDeepAgain _ _ ih | take _ _ ih | skip _ _ _ ih | complain _ _ _ _ ih | tooDeep _ _ ih
  | mark _ _ _ ih => exact ih

/-! ### Turns of a document -/

/-- A statement of a document and the way to the next one. -/
abbrev documentItem (levels : Nat) : Parser Statement :=
  item .document (statement levels (statements levels))

theorem documentItem_reads (levels : Nat) :
    Reads (·.startsStatement = true) (documentItem levels) .sentence :=
  item_reads (statement_reads (statements_reads levels) levels)

/-- The first token of a statement is matched whatever is wrong with the rest. -/
theorem documentItem_advances (levels : Nat) :
    Advances (·.startsStatement = true) (documentItem levels) :=
  (item_advances .document (statement_advances (statements_forward levels) levels)).anywhere _

section Turns

variable {levels : Nat} {s t : State} {as : List Statement}

/-- The budget of the loop is never what ends it. -/
theorem outcome_many_iff (hs : s.Sound) :
    outcome (many Kind.startsStatement (documentItem levels)) s = (as, t) ↔
      Turns Kind.startsStatement (documentItem levels) s as t ∧
        t.current.kind.startsStatement = false := by
  constructor
  · intro h
    obtain ⟨bs, u, hturns, hstop, -, hloop⟩ :=
      collect_ends (documentItem_advances levels) rfl hs.eof_kind
    have hmany : outcome (many Kind.startsStatement (documentItem levels)) s = (bs, u) :=
      hloop s.rest [] le_rfl
    rw [hmany] at h
    obtain ⟨rfl, rfl⟩ := Prod.mk.inj h
    exact ⟨hturns, hstop⟩
  · rintro ⟨hturns, hstop⟩
    have hlength := hturns.length_add_le (documentItem_advances levels) rfl hs.eof_kind
    exact collect_of_turns hturns s.rest [] (by omega) fun _ => hstop

end Turns

/-! ### The first document -/

section First

variable {c : Follow} {levels : Nat}

/-- Statements without a complaint are the same before what follows. Behind each of them the way to
the next one is looked for, which only behind the last one leads over what follows. -/
theorem Turns.succeed {s t u : State} {as : List Statement}
    (h : Turns Kind.startsStatement (documentItem levels) s as t) (hs : s.Sound)
    (hclean : t.errors = []) (hu : u.Sound) (hext : Extends c s u) :
    ∃ v, Turns Kind.startsStatement (documentItem levels) (outcome (resume .document) u).2 as
        (outcome (resume .document) v).2 ∧
      Extends c t v ∧ v.Sound ∧ v.limit = u.limit := by
  induction h generalizing u with
  | done s => exact ⟨u, .done _, hext, hu, rfl⟩
  | @turn s t as hk h ih =>
    have hreads := statement_reads (statements_reads levels) levels
    have hcurrent := hext.current_eq hs (ne_eof_of_test rfl hk)
    have hku : u.current.kind.startsStatement = true := by rw [hcurrent, hk]
    have hcontinues := Scope.document.continues_of_startsStatement hku
    obtain ⟨_, hitem⟩ := (documentItem_reads levels).passes s hs hk
    obtain ⟨_, hturns⟩ := h.passes (documentItem_reads levels) (hitem.sound hs)
    obtain ⟨_, hstatement⟩ := hreads.passes s hs hk
    obtain ⟨_, hstatement'⟩ := hreads.passes u hu hku
    obtain ⟨_, hstays⟩ := outcome_resume_of_clean (hstatement.sound hs) (hturns.errors_eq_nil hclean)
    have hbehind : (outcome (documentItem levels) s).2 =
        (outcome (statement levels (statements levels)) s).2 := by
      rw [outcome_item, hstays]
    obtain ⟨hbuilt, hext'⟩ := (statement_frames (fun _ h => statements_frames levels h) levels).agrees
      s u hs hext hk (hbehind ▸ hturns.errors_eq_nil hclean)
    rw [← hbehind] at hext'
    obtain ⟨v, hturns', hv⟩ := ih (hitem.sound hs) hclean (hstatement'.sound hu) hext'
    refine ⟨v, ?_, hv.1, hv.2.1, hv.2.2.trans hstatement'.limit_eq⟩
    have hfirst : (outcome (documentItem levels) u).1 = (outcome (documentItem levels) s).1 := hbuilt
    rw [resume_stays hcontinues, ← hfirst]
    exact .turn hku hturns'

end First

/-! ### Between the documents -/

/-- The complaint about a token with which no document goes on. -/
def strayError (t : Token) : SyntaxError :=
  .atToken (.extraneous t.toLexeme (Kind.accepted Scope.document.continues)) t

/-- Tokens that no statement starts with are passed over, up to one that starts a statement; only the
first of them is complained about. -/
theorem resume_over {u w : State} {strays rest : List Token} {first : Token}
    (hrest : u.rest = strays ++ first :: rest)
    (hstrays : ∀ t ∈ strays, Scope.document.continues t.kind = false)
    (hfirst : first.kind.startsStatement = true) (hrecovering : u.recovering = false)
    (hw : (outcome (resume .document) u).2 = w) :
    w.limit = u.limit ∧ w.rest = first :: rest ∧ w.eof = u.eof ∧
      w.errors = u.errors ++ (strays.head?.map strayError).toList ∧ w.tooDeep = u.tooDeep := by
  subst hw
  have hcontinues := Scope.document.continues_of_startsStatement hfirst
  cases strays with
  | nil =>
    have hcurrent : u.current = first := by rw [State.current, hrest]; rfl
    rw [resume_stays (hcurrent ▸ hcontinues)]
    exact ⟨rfl, hrest, rfl, (List.append_nil _).symm, rfl⟩
  | cons t strays =>
    have hcurrent : u.current = t := by rw [State.current, hrest]; rfl
    have hpassed : u.rest.takeWhile (fun t => !Scope.document.continues t.kind) = t :: strays := by
      rw [hrest, List.takeWhile_append_of_pos (by simpa using hstrays),
        List.takeWhile_cons_of_neg (by simp [hcontinues]), List.append_nil]
    let complaint := Complaint.extraneous t.toLexeme (Kind.accepted Scope.document.continues)
    have hresume : (outcome (resume .document) u).2 =
        (outcome (skip (t :: strays).length) (u.afterComplaint complaint)).2 := by
      change (outcome (if Scope.document.continues u.current.kind then _ else _) u).2 = _
      rw [outcome_ite, if_neg (by rw [hcurrent, hstrays t List.mem_cons_self]; simp), hcurrent,
        hpassed]
      change (outcome (skip _) (if u.recovering then u else u.afterComplaint complaint)).2 = _
      rw [if_neg (by rw [hrecovering]; simp)]
    rw [hresume]
    refine ⟨rfl, ?_, rfl, ?_, rfl⟩
    · rw [rest_skip]
      change u.rest.drop _ = _
      rw [hrest, List.drop_left]
    · rw [errors_skip, State.errors_afterComplaint, hcurrent]
      rfl

/-! ### The second document -/

section Second

variable {α : Type} {move : Position → Position} {earlier : List SyntaxError}

theorem Turns.moved {more : Kind → Bool} {f : α → α} {item : Parser α}
    (hitem : Moves move earlier f item item) {s t w : State} {as : List α}
    (h : Turns more item s as t) (hmoved : Moved move earlier s w) :
    ∃ u, Turns more item w (as.map f) u ∧ Moved move earlier t u := by
  induction h generalizing w with
  | done s => exact ⟨w, .done w, hmoved⟩
  | turn hk _ ih =>
    obtain ⟨hbuilt, hmoved'⟩ := hitem _ _ hmoved
    obtain ⟨u, hturns, hu⟩ := ih hmoved'
    refine ⟨u, ?_, hu⟩
    rw [List.map_cons, ← hbuilt]
    exact .turn (hmoved.kind ▸ hk) hturns

/-- A statement starts with a token that is matched, so it does not matter whether complaints were
withheld before it. -/
theorem documentItem_afresh (levels : Nat) (s : State) (recovering : Bool) :
    outcome (documentItem levels) { s with recovering } = outcome (documentItem levels) s := rfl

end Second

/-! ### Both -/

/-- The start of a document, behind the mark of its level. -/
def entered (levels : Nat) (tokens : List Token) (eof : Token) : State :=
  (State.start (levels + 1) tokens eof).afterMarking .entered

theorem runTokens_eq (levels : Nat) (tokens : List Token) (eof : Token) :
    runTokens (levels + 1) tokens eof =
      let all := outcome (many Kind.startsStatement (documentItem levels))
        (outcome (resume .document) (entered levels tokens eof)).2
      (all.1, all.2.afterMarking .left) := rfl

section Document

variable (levels : Nat) (tokens : List Token) {eof : Token} (heof : eof.kind = .eof)
include heof

theorem sound_entered : (entered levels tokens eof).Sound :=
  (mark_passage .entered rfl rfl _).sound (State.sound_start heof)

theorem sound_begun : (outcome (resume .document) (entered levels tokens eof)).2.Sound := by
  have hs := sound_entered levels tokens heof
  obtain ⟨_, hresume⟩ := (resume_reads .document).passes _ hs trivial
  exact hresume.sound hs

theorem exists_turns : ∃ as t, runTokens (levels + 1) tokens eof = (as, t.afterMarking .left) ∧
    Turns Kind.startsStatement (documentItem levels)
      (outcome (resume .document) (entered levels tokens eof)).2 as t ∧
    t.current.kind.startsStatement = false :=
  ⟨_, _, rfl, (outcome_many_iff (sound_begun levels tokens heof)).mp rfl⟩

variable {levels : Nat} {tokens : List Token}

theorem runTokens_of_turns {as : List Statement} {t : State}
    (h : Turns Kind.startsStatement (documentItem levels)
      (outcome (resume .document) (entered levels tokens eof)).2 as t)
    (hstop : t.current.kind.startsStatement = false) :
    runTokens (levels + 1) tokens eof = (as, t.afterMarking .left) := by
  rw [runTokens_eq, (outcome_many_iff (sound_begun levels tokens heof)).mpr ⟨h, hstop⟩]

/-- Without a complaint a document begins where it stands and is read to its end. -/
theorem exists_clean_turns (htokens : ∀ t ∈ tokens, t.kind ≠ .eof)
    (hclean : (runTokens (levels + 1) tokens eof).2.errors = []) :
    ∃ t, Turns Kind.startsStatement (documentItem levels) (entered levels tokens eof)
        (runTokens (levels + 1) tokens eof).1 t ∧ t.errors = [] ∧ t.rest = [] := by
  obtain ⟨as, t, hrun, hturns, _⟩ := exists_turns levels tokens heof
  have hend : (runTokens (levels + 1) tokens eof).2.current.kind = .eof :=
    statements_stops (levels + 1) .document (State.sound_start heof) hclean
  rw [hrun] at hclean hend ⊢
  have herrors : t.errors = [] := (mark_passage .left rfl rfl t).errors_eq_nil hclean
  obtain ⟨_, hpassage⟩ := hturns.passes (documentItem_reads levels) (sound_begun levels tokens heof)
  obtain ⟨_, hstays⟩ := outcome_resume_of_clean (sound_entered levels tokens heof)
    (hpassage.errors_eq_nil herrors)
  rw [hstays] at hturns hpassage
  refine ⟨t, hturns, herrors, State.rest_eq_nil hend fun x hx => htokens x ?_⟩
  have hrest : tokens = _ ++ t.rest := hpassage.rest_eq
  rw [hrest]
  exact List.mem_append_right _ hx

end Document

theorem Turns.afresh {levels : Nat} {s t : State} {as : List Statement} {recovering : Bool}
    (h : Turns Kind.startsStatement (documentItem levels) { s with recovering } as t)
    (hne : as ≠ []) : Turns Kind.startsStatement (documentItem levels) s as t := by
  cases h with
  | done => exact absurd rfl hne
  | turn hk h =>
    rw [documentItem_afresh] at h ⊢
    exact .turn hk h

theorem Turns.ne_nil {α : Type} {more : Kind → Bool} {item : Parser α} {s t : State} {as : List α}
    (h : Turns more item s as t) (hs : more s.current.kind = true)
    (ht : more t.current.kind = false) : as ≠ [] := by
  cases h with
  | done =>
    rw [hs] at ht
    cases ht
  | turn => exact List.cons_ne_nil _ _

/-- As the start of a parse of the tokens, whatever the journal holds besides complaints. -/
structure LikeStart (limit : Nat) (tokens : List Token) (eof : Token) (s : State) : Prop where
  limit : s.limit = limit
  rest : s.rest = tokens
  eof : s.eof = eof
  errors : s.errors = []
  recovering : s.recovering = false
  tooDeep : s.tooDeep = false

/-- In front of what follows, a document without a complaint is read as it stands alone, and leaves
what follows ahead. -/
theorem exists_turns_in_front {levels : Nat} {tokens : List Token} {eof : Token} (c : Follow)
    (heof : eof.kind = .eof) (hc : c.eof.kind = .eof) (htokens : ∀ t ∈ tokens, t.kind ≠ .eof)
    (hclean : (runTokens (levels + 1) tokens eof).2.errors = []) :
    ∃ v, Turns Kind.startsStatement (documentItem levels)
        (outcome (resume .document) (entered levels (tokens ++ c.tail) c.eof)).2
        (runTokens (levels + 1) tokens eof).1 (outcome (resume .document) v).2 ∧
      LikeStart (levels + 1) c.tail c.eof v := by
  obtain ⟨t, hturns, herrors, hrest⟩ := exists_clean_turns heof htokens hclean
  obtain ⟨v, hturns', hext, hv, hlimit⟩ := hturns.succeed (c := c) (sound_entered levels tokens heof)
    herrors (sound_entered levels (tokens ++ c.tail) hc) ⟨rfl, rfl, rfl⟩
  refine ⟨v, hturns', hlimit, ?_, hext.eof, hext.errors, ?_, ?_⟩
  · rw [hext.rest, hrest]
    rfl
  · rw [← Bool.not_eq_true]
    exact fun h => hv.recovering h hext.errors
  · rw [← Bool.not_eq_true]
    exact fun h => hv.tooDeep h hext.errors

/-- Behind stray tokens a document begins as it does alone, but for the complaint about them. -/
theorem moved_resume {levels : Nat} {strays tokens : List Token} {first eof : Token}
    {move : Position → Position} {v : State}
    (hv : LikeStart (levels + 1) (strays ++ (first :: tokens).map (Token.relocate move))
      (eof.relocate move) v)
    (hstrays : ∀ t ∈ strays, Scope.document.continues t.kind = false)
    (hfirst : first.kind.startsStatement = true) :
    Moved move (strays.head?.map strayError).toList (entered levels (first :: tokens) eof)
      { (outcome (resume .document) v).2 with recovering := false } := by
  obtain ⟨hlimit, hrest, heof, herrors, htooDeep⟩ :=
    resume_over hv.rest hstrays hfirst hv.recovering rfl
  exact {
    limit := hlimit.trans hv.limit
    rest := hrest
    eof := heof.trans hv.eof
    errors := by
      change (outcome (resume .document) v).2.errors = _
      rw [herrors, hv.errors]
      exact (List.append_nil _).symm
    recovering := rfl
    tooDeep := htooDeep.trans hv.tooDeep }

/-- A document behind another one and stray closers between them. -/
theorem runTokens_behind {levels : Nat} {before strays : List Token} {first eof eof' : Token}
    (tokens : List Token) (heof : eof.kind = .eof) (heof' : eof'.kind = .eof)
    (hbefore : ∀ t ∈ before, t.kind ≠ .eof)
    (hclean : (runTokens (levels + 1) before eof).2.errors = [])
    (hstrays : ∀ t ∈ strays, t.kind = .rightBracket ∨ t.kind = .rightParen)
    (hfirst : first.kind.startsStatement = true) (move : Position → Position) :
    ∃ end_, runTokens (levels + 1)
        (before ++ (strays ++ (first :: tokens).map (Token.relocate move))) (eof'.relocate move) =
        ((runTokens (levels + 1) before eof).1 ++
          (runTokens (levels + 1) (first :: tokens) eof').1.map (Statement.relocate move), end_) ∧
      end_.errors = (strays.head?.map strayError).toList ++
        (runTokens (levels + 1) (first :: tokens) eof').2.errors.map (SyntaxError.relocate move) := by
  have hclosers : ∀ t ∈ strays, Scope.document.continues t.kind = false := by
    intro t ht
    rcases hstrays t ht with h | h <;> rw [h] <;> rfl
  let c : Follow := {
    tail := strays ++ (first :: tokens).map (Token.relocate move)
    eof := eof'.relocate move
    quiet := by
      cases strays with
      | nil => exact Kind.endsExpr_of_startsStatement hfirst
      | cons t strays => rcases hstrays t List.mem_cons_self with h | h <;> simp [Kind.endsExpr, h] }
  have hc : c.eof.kind = .eof := heof'
  -- Up to the end of the first document both parses go the same way.
  obtain ⟨v, hturns, hv⟩ := exists_turns_in_front c heof hc hbefore hclean
  -- From there on the second document is parsed as from its own start.
  have hmoved := moved_resume hv hclosers hfirst
  obtain ⟨as, t, hsecond, hturns', hstop⟩ := exists_turns levels (first :: tokens) heof'
  have hbegins : Scope.document.continues (entered levels (first :: tokens) eof').current.kind =
      true := Scope.document.continues_of_startsStatement hfirst
  rw [resume_stays hbegins] at hturns'
  have hne : as ≠ [] := hturns'.ne_nil hfirst hstop
  obtain ⟨u, hturns'', hu⟩ := hturns'.moved
    (item_moves .document (statement_moves (statements_moves levels) levels)) hmoved
  have hall := hturns.append (hturns''.afresh (by simpa using hne))
  have hend : u.current.kind.startsStatement = false := by
    rw [hu.kind]
    exact hstop
  refine ⟨u.afterMarking .left, ?_, ?_⟩
  · rw [hsecond]
    exact runTokens_of_turns hc hall hend
  · rw [hsecond, State.errors_afterMarking _ rfl, hu.errors, State.errors_afterMarking _ rfl]

end Parser

end LogoServer
