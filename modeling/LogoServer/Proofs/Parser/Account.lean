import LogoServer.Proofs.Parser.Passage
import Mathlib.Tactic

/-! What a parser owes for the tokens it matches. An account relates what is built to the tokens
matched for it, once for every run and once for those without a complaint; accounts follow the
sequencing of parsers. -/
namespace LogoServer.Parser

variable {α β : Type}

/-- What a parser builds from a state, and the state it leaves. -/
def outcome (p : Parser α) (s : State) : α × State :=
  p.run s

@[simp] theorem outcome_bind (p : Parser α) (f : α → Parser β) (s : State) :
    outcome (p >>= f) s = outcome (f (outcome p s).1) (outcome p s).2 := rfl

@[simp] theorem outcome_currentKind (s : State) : outcome currentKind s = (s.current.kind, s) := rfl

@[simp] theorem outcome_take_fst (s : State) : (outcome take s).1 = s.current := rfl

theorem outcome_ite (c : Prop) [Decidable c] (p q : Parser α) (s : State) :
    outcome (if c then p else q) s = if c then outcome p s else outcome q s := by
  split_ifs <;> rfl

/-- Relations between what is built and the tokens matched for it. -/
structure Account (α : Type) where
  /-- Holds of every run. -/
  always : α → List Token → Prop
  /-- Holds of a run at whose end nothing was complained about. -/
  clean : α → List Token → Prop

namespace Account

/-- The same relation whether or not there were complaints. -/
def both (relation : α → List Token → Prop) : Account α :=
  ⟨relation, relation⟩

/-- A part that builds `a`, then one that depends on it. -/
def andThen (A : Account α) (B : α → Account β) : Account β where
  always b ts := ∃ a us vs, ts = us ++ vs ∧ A.always a us ∧ (B a).always b vs
  clean b ts := ∃ a us vs, ts = us ++ vs ∧ A.clean a us ∧ (B a).clean b vs

end Account

/-- From every sound state whose next kind satisfies `start`, the parser goes on as a parse can and
keeps to the account. -/
def Reads (start : Kind → Prop) (p : Parser α) (A : Account α) : Prop :=
  ∀ s : State, s.Sound → start s.current.kind →
    ∃ notes, Passage s notes (outcome p s).2 ∧ A.always (outcome p s).1 (takenOf notes) ∧
      ((outcome p s).2.errors = [] → A.clean (outcome p s).1 (takenOf notes))

def anyKind (_ : Kind) : Prop :=
  True

namespace Reads

variable {start : Kind → Prop} {p : Parser α} {A : Account α}

theorem mono {B : Account α} (h : Reads start p A)
    (halways : ∀ a ts, A.always a ts → B.always a ts)
    (hclean : ∀ a ts, A.clean a ts → B.clean a ts) : Reads start p B := by
  intro s hs hstart
  obtain ⟨notes, hpassage, ha, hc⟩ := h s hs hstart
  exact ⟨notes, hpassage, halways _ _ ha, fun he => hclean _ _ (hc he)⟩

theorem of_start {start' : Kind → Prop} (h : Reads start p A) (hstart : ∀ k, start' k → start k) :
    Reads start' p A :=
  fun s hs hk => h s hs (hstart _ hk)

theorem pure (start : Kind → Prop) (a : α) :
    Reads start (Pure.pure a) (.both fun b ts => b = a ∧ ts = []) :=
  fun s _ _ => ⟨[], .stay s, ⟨rfl, rfl⟩, fun _ => ⟨rfl, rfl⟩⟩

/-- Complaints stay on record, so a sequence without any has none in its parts. -/
theorem bind {f : α → Parser β} {B : α → Account β} (hp : Reads start p A)
    (hf : ∀ a, Reads anyKind (f a) (B a)) : Reads start (p >>= f) (A.andThen B) := by
  intro s hs hstart
  obtain ⟨ns, hns, ha, hc⟩ := hp s hs hstart
  obtain ⟨ms, hms, hb, hd⟩ := hf (outcome p s).1 (outcome p s).2 (hns.sound hs) trivial
  refine ⟨ns ++ ms, hns.trans hms, ?_, ?_⟩
  · exact ⟨_, _, _, takenOf_append ns ms, ha, hb⟩
  · intro he
    exact ⟨_, _, _, takenOf_append ns ms, hc (hms.errors_eq_nil he), hd he⟩

theorem map {B : Account β} {f : α → β} (hp : Reads start p A)
    (halways : ∀ a ts, A.always a ts → B.always (f a) ts)
    (hclean : ∀ a ts, A.clean a ts → B.clean (f a) ts) : Reads start (do return f (← p)) B := by
  refine (hp.bind fun _ => .pure _ _).mono ?_ ?_
  · rintro _ ts ⟨a, us, _, rfl, ha, rfl, rfl⟩
    rw [List.append_nil]
    exact halways a us ha
  · rintro _ ts ⟨a, us, _, rfl, ha, rfl, rfl⟩
    rw [List.append_nil]
    exact hclean a us ha

theorem currentKind_bind {f : Kind → Parser α} (h : ∀ k, start k → Reads (· = k) (f k) A) :
    Reads start (currentKind >>= f) A :=
  fun s hs hstart => h s.current.kind hstart s hs rfl

theorem get_bind {f : State → Parser α} (h : ∀ s, Reads start (f s) A) :
    Reads start (get >>= f) A :=
  fun s hs hstart => h s s hs hstart

theorem ite {test : Bool} {q : Parser α} (hp : test = true → Reads start p A)
    (hq : test = false → Reads start q A) : Reads start (if test then p else q) A := by
  cases test with
  | true => exact hp rfl
  | false => exact hq rfl

end Reads

/-! ### Levels -/

theorem mark_passage (note : Note) (htoken : note.token? = none) (herror : note.error? = none)
    (s : State) : Passage s [note] (s.afterMarking note) :=
  .mark htoken herror (.stay _)

theorem outcome_nested (p : Parser α) (s : State) :
    outcome (nested p) s = ((outcome p (s.afterMarking .entered)).1,
      (outcome p (s.afterMarking .entered)).2.afterMarking .left) := rfl

/-- Marks of the level change nothing about the tokens. -/
theorem Reads.nested {start : Kind → Prop} {p : Parser α} {A : Account α} (h : Reads start p A) :
    Reads start (nested p) A := by
  intro s hs hstart
  have henter := mark_passage .entered rfl rfl s
  obtain ⟨notes, hpassage, ha, hc⟩ := h (s.afterMarking .entered) (henter.sound hs) hstart
  have hleave := mark_passage .left rfl rfl (outcome p (s.afterMarking .entered)).2
  have htaken : takenOf ([.entered] ++ (notes ++ [.left])) = takenOf notes := by
    rw [takenOf_append, takenOf_append]
    exact List.append_nil _
  refine ⟨_, henter.trans (hpassage.trans hleave), ?_, fun he => ?_⟩
  · rw [htaken]
    exact ha
  · rw [htaken]
    exact hc (hleave.errors_eq_nil he)

/-! ### Going astray -/

/-- Tokens may be passed over and none is matched; complaints are withheld at the end. -/
def Astray (s t : State) : Prop :=
  ∃ notes, Passage s notes t ∧ takenOf notes = [] ∧ t.recovering = true

namespace Astray

variable {s t u : State}

theorem refl (h : s.recovering = true) : Astray s s :=
  ⟨[], .stay s, rfl, h⟩

theorem trans (h : Astray s t) (h' : t.recovering = true → Astray t u) : Astray s u := by
  obtain ⟨ns, hns, htaken, hrecovering⟩ := h
  obtain ⟨ms, hms, htaken', hrecovering'⟩ := h' hrecovering
  exact ⟨ns ++ ms, hns.trans hms, by simp [htaken, htaken'], hrecovering'⟩

theorem errors_ne_nil (h : Astray s t) (hs : s.Sound) : t.errors ≠ [] := by
  obtain ⟨_, hpassage, _, hrecovering⟩ := h
  exact (hpassage.sound hs).recovering hrecovering

end Astray

theorem complain_astray (complaint : Complaint) (hplain : complaint.isTooDeep = false)
    (s : State) : Astray s (outcome (complain complaint) s).2 := by
  cases hrecovering : s.recovering with
  | true =>
    have heq : (outcome (complain complaint) s).2 = s := if_pos hrecovering
    rw [heq]
    exact .refl hrecovering
  | false =>
    have heq : (outcome (complain complaint) s).2 = s.afterComplaint complaint :=
      if_neg (by simp [hrecovering])
    rw [heq]
    exact ⟨_, .complain complaint hplain hrecovering (.stay _), rfl, rfl⟩

@[simp] theorem rest_complain (complaint : Complaint) (s : State) :
    (outcome (complain complaint) s).2.rest = s.rest := by
  change (if s.recovering then s else s.afterComplaint complaint).rest = s.rest
  split_ifs <;> rfl

theorem rest_complainTooDeep (s : State) : (outcome complainTooDeep s).2.rest = s.rest := by
  change (if s.tooDeep then s else s.note _).rest = s.rest
  split_ifs <;> rfl

theorem eof_complainTooDeep (s : State) : (outcome complainTooDeep s).2.eof = s.eof := by
  change (if s.tooDeep then s else s.note _).eof = s.eof
  split_ifs <;> rfl

theorem current_complainTooDeep (s : State) :
    (outcome complainTooDeep s).2.current = s.current := by
  rw [State.current, State.current, rest_complainTooDeep, eof_complainTooDeep]

theorem complainTooDeep_first {s : State} (h : s.tooDeep = false) :
    (outcome complainTooDeep s).2 = s.afterTooDeep := by
  change State.mk _ _ _ _ _ _ = State.mk _ _ _ _ _ _
  simp [h, State.tooDeepComplaint, State.afterComplaint, State.note]

theorem complainTooDeep_again {s : State} (h : s.tooDeep = true) :
    (outcome complainTooDeep s).2 = { s with recovering := true } := by
  change State.mk _ _ _ _ _ _ = State.mk _ _ _ _ _ _
  simp [h]

theorem complainTooDeep_astray (s : State) : Astray s (outcome complainTooDeep s).2 := by
  cases htooDeep : s.tooDeep with
  | true =>
    rw [complainTooDeep_again htooDeep]
    exact ⟨_, .tooDeepAgain htooDeep (.stay _), rfl, rfl⟩
  | false =>
    rw [complainTooDeep_first htooDeep]
    exact ⟨_, .tooDeep htooDeep (.stay _), rfl, rfl⟩

theorem outcome_skip (n : Nat) (s : State) :
    outcome (skip n) s = ((), s.afterSkippingAll (s.rest.take n) (s.rest.drop n)) := rfl

theorem outcome_skip_one {s : State} {t : Token} {rest : List Token} (h : s.rest = t :: rest) :
    outcome (skip 1) s = ((), s.afterSkippingAll [t] rest) := by
  rw [outcome_skip, h]
  rfl

theorem errors_skip (n : Nat) (s : State) : (outcome (skip n) s).2.errors = s.errors :=
  s.errors_afterSkippingAll _ _

@[simp] theorem rest_skip (n : Nat) (s : State) : (outcome (skip n) s).2.rest = s.rest.drop n := rfl

/-- While complaints are withheld, any of the tokens ahead may be passed over. -/
theorem afterSkippingAll_astray {s : State} {ts rest : List Token} (hrest : s.rest = ts ++ rest)
    (h : s.recovering = true) : Astray s (s.afterSkippingAll ts rest) := by
  induction ts generalizing s with
  | nil =>
    have hstay : s.afterSkippingAll [] rest = s := State.afterSkippingAll_nil hrest
    rw [hstay]
    exact .refl h
  | cons t ts ih =>
    have hstep : Astray s (s.afterSkippingAll [t] (ts ++ rest)) :=
      ⟨_, .skip hrest h (.stay _), rfl, h⟩
    have hon := hstep.trans fun h' => ih rfl h'
    rwa [State.afterSkippingAll_append] at hon

theorem skip_astray (n : Nat) {s : State} (h : s.recovering = true) :
    Astray s (outcome (skip n) s).2 :=
  afterSkippingAll_astray (List.take_append_drop n s.rest).symm h

theorem skipToCloser_astray (opener closer : Kind) {s : State} (h : s.recovering = true) :
    Astray s (outcome (skipToCloser opener closer) s).2 :=
  skip_astray _ h

theorem outcome_skipToCloser (opener closer : Kind) (s : State) :
    outcome (skipToCloser opener closer) s =
      outcome (skip (closerOffset opener closer 0 s.rest)) s := rfl

theorem outcome_skipToCloser_of_offset {s : State} {opener closer : Kind} {ts rest : List Token}
    (hrest : s.rest = ts ++ rest) (hoffset : closerOffset opener closer 0 s.rest = ts.length) :
    outcome (skipToCloser opener closer) s = ((), s.afterSkippingAll ts rest) := by
  rw [outcome_skipToCloser, hoffset, outcome_skip, hrest, List.take_left, List.drop_left]

theorem outcome_skipConstruct (s : State) :
    outcome skipConstruct s =
      match s.current.kind.closer? with
      | none => outcome (skip 1) s
      | some closer =>
        let t := (outcome (skipToCloser s.current.kind closer) (outcome (skip 1) s).2).2
        if t.current.kind = closer then outcome (skip 1) t else ((), t) := by
  simp only [skipConstruct, outcome_bind, outcome_currentKind]
  cases s.current.kind.closer? with
  | none => rfl
  | some closer =>
    change outcome (if _ then _ else _) _ = _
    rw [outcome_ite]
    rfl

theorem outcome_skipConstruct_opening {s : State} {opening : Token} {tokens : List Token}
    {closer : Kind} (hrest : s.rest = opening :: tokens)
    (hcloser : opening.kind.closer? = some closer) :
    outcome skipConstruct s =
      let t := (outcome (skipToCloser opening.kind closer) (s.afterSkippingAll [opening] tokens)).2
      if t.current.kind = closer then outcome (skip 1) t else ((), t) := by
  have hcurrent : s.current = opening := by rw [State.current, hrest]; rfl
  rw [outcome_skipConstruct, hcurrent, hcloser, outcome_skip_one hrest]

/-- Where counting stops at a closer, the construct ends with that closer. -/
theorem outcome_skipConstruct_of_offset {s : State} {opening closing : Token}
    {ts rest : List Token} {closer : Kind} (hrest : s.rest = opening :: (ts ++ closing :: rest))
    (hcloser : opening.kind.closer? = some closer) (hclosing : closing.kind = closer)
    (hoffset : closerOffset opening.kind closer 0 (ts ++ closing :: rest) = ts.length) :
    outcome skipConstruct s = ((), s.afterSkippingAll (opening :: (ts ++ [closing])) rest) := by
  have hpassed : outcome (skipToCloser opening.kind closer)
      (s.afterSkippingAll [opening] (ts ++ closing :: rest)) =
        ((), s.afterSkippingAll (opening :: ts) (closing :: rest)) := by
    rw [outcome_skipToCloser_of_offset rfl hoffset, State.afterSkippingAll_append]
    rfl
  rw [outcome_skipConstruct_opening hrest hcloser, hpassed]
  refine (if_pos hclosing).trans ?_
  rw [outcome_skip_one rfl, State.afterSkippingAll_append]
  rfl

theorem skipConstruct_astray {s : State} (h : s.recovering = true) :
    Astray s (outcome skipConstruct s).2 := by
  rw [outcome_skipConstruct]
  cases s.current.kind.closer? with
  | none => exact skip_astray 1 h
  | some closer =>
    refine (skip_astray 1 h).trans fun h₁ =>
      (skipToCloser_astray s.current.kind closer h₁).trans fun h₂ => ?_
    dsimp only
    split_ifs
    · exact skip_astray 1 h₂
    · exact .refl h₂

namespace Reads

variable {start : Kind → Prop} {p : Parser α} {A : Account α}

/-- A parser that only goes astray is never clean. -/
theorem of_astray (h : ∀ s, start s.current.kind → Astray s (outcome p s).2)
    (halways : ∀ s, A.always (outcome p s).1 []) : Reads start p A := by
  intro s hs hstart
  have hastray := h s hstart
  obtain ⟨notes, hpassage, htaken, _⟩ := hastray
  refine ⟨notes, hpassage, ?_, fun he => absurd he ((h s hstart).errors_ne_nil hs)⟩
  rw [htaken]
  exact halways s

/-- Behind a stretch of going astray a parser keeps what its account says of every run. -/
theorem after_astray {s t : State} (hp : Reads start p A) (hs : s.Sound) (h : Astray s t)
    (hstart : start t.current.kind) :
    ∃ notes, Passage s notes (outcome p t).2 ∧ A.always (outcome p t).1 (takenOf notes) ∧
      (outcome p t).2.errors ≠ [] := by
  obtain ⟨ns, hns, htaken, _⟩ := id h
  obtain ⟨ms, hms, ha, _⟩ := hp t (hns.sound hs) hstart
  refine ⟨ns ++ ms, hns.trans hms, ?_, ?_⟩
  · rw [takenOf_append, htaken, List.nil_append]
    exact ha
  · exact fun he => h.errors_ne_nil hs (hms.errors_eq_nil he)

end Reads

/-! ### Single tokens -/

/-- One token of a kind that satisfies the condition. -/
def Account.one (condition : Kind → Prop) : Account Token :=
  .both fun t ts => condition t.kind ∧ ts = [t]

/-- A token of the kind, or none. -/
def Account.perhaps (kind : Kind) : Account (Option Token) :=
  .both fun found ts => (∀ t ∈ found, t.kind = kind) ∧ ts = found.toList

/-- A token of the kind, taken as present at worst. -/
def Account.expected (kind : Kind) : Account (Option Token) where
  always found ts := (∀ t ∈ found, t.kind = kind) ∧ ts = found.toList
  clean found ts := ∃ t, t.kind = kind ∧ found = some t ∧ ts = [t]

/-- A token that is no mark of the end is matched and left behind. -/
theorem take_passage {s : State} (hs : s.Sound) (h : s.current.kind ≠ .eof) :
    Passage s [.taken s.current] (outcome take s).2 := by
  obtain ⟨rest, hrest⟩ := s.exists_rest_of_kind_ne_eof hs.eof_kind h
  have heq : (outcome take s).2 = s.afterTaking s.current rest := by
    change State.mk _ _ _ _ _ _ = State.mk _ _ _ _ _ _
    simp [hrest]
  rw [heq]
  exact .take hrest (.stay _)

theorem take_reads (start : Kind → Prop) (hstart : ¬ start .eof) :
    Reads start take (.one start) := by
  intro s hs hk
  have hne : s.current.kind ≠ .eof := fun he => hstart (he ▸ hk)
  exact ⟨_, take_passage hs hne, ⟨hk, rfl⟩, fun _ => ⟨hk, rfl⟩⟩

theorem takeIf_reads {kind : Kind} (hkind : kind ≠ .eof) :
    Reads anyKind (takeIf kind) (.perhaps kind) := by
  refine Reads.currentKind_bind fun k _ => ?_
  split_ifs with hk
  · refine ((take_reads _ (by simpa [hk] using hkind.symm)).bind fun t => .pure _ _).mono ?_ ?_
    all_goals
      rintro found ts ⟨t, us, vs, rfl, ⟨ht, rfl⟩, rfl, rfl⟩
      exact ⟨by simp [ht, hk], by simp⟩
  · refine (Reads.pure _ _).mono ?_ ?_
    all_goals
      rintro found ts ⟨rfl, rfl⟩
      exact ⟨by simp, rfl⟩

theorem outcome_expect (kind : Kind) (s : State) :
    outcome (expect kind) s =
      if s.current.kind = kind then (some s.current, (outcome take s).2)
      else if s.current.kind ≠ .eof ∧ s.followingKind = kind then
        let astray := (outcome (skip 1)
          (outcome (complain (.extraneous s.current.toLexeme [kind])) s).2).2
        (some astray.current, (outcome take astray).2)
      else (none, (outcome (complain (.missing kind s.current.toLexeme)) s).2) := by
  change outcome (if s.current.kind = kind then _ else if _ then _ else _) s = _
  rw [outcome_ite, outcome_ite]
  rfl

/-- Passing over one token brings the one behind it to the front. -/
theorem current_kind_of_followingKind {s t : State} {kind : Kind} (hkind : kind ≠ .eof)
    (h : s.followingKind = kind) (ht : t.rest = s.rest.drop 1) : t.current.kind = kind := by
  unfold State.followingKind at h
  split at h
  · rename_i hrest
    simpa [State.current, ht, hrest] using h
  · exact absurd h.symm hkind

theorem expect_reads {kind : Kind} (hkind : kind ≠ .eof) :
    Reads anyKind (expect kind) (.expected kind) := by
  intro s hs _
  rw [outcome_expect]
  split_ifs with hfound hnext
  · have hpassage := take_passage hs (hfound ▸ hkind)
    exact ⟨_, hpassage, ⟨by simpa using hfound, rfl⟩, fun _ => ⟨_, hfound, rfl, rfl⟩⟩
  · have hastray := (complain_astray (.extraneous s.current.toLexeme [kind]) rfl s).trans
      fun h => skip_astray 1 h
    obtain ⟨notes, hpassage, ⟨ht, htaken⟩, herrors⟩ :=
      (take_reads (· = kind) hkind.symm).after_astray hs hastray
        (current_kind_of_followingKind hkind hnext.2 (by simp))
    exact ⟨notes, hpassage, ⟨by simpa using ht, htaken⟩, fun he => absurd he herrors⟩
  · have hastray := complain_astray (.missing kind s.current.toLexeme) rfl s
    obtain ⟨notes, hpassage, htaken, _⟩ := id hastray
    exact ⟨notes, hpassage, ⟨by simp, htaken⟩, fun he => absurd he (hastray.errors_ne_nil hs)⟩

end LogoServer.Parser
