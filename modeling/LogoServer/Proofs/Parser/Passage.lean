import LogoServer.Parser.Recovery
import LogoServer.Parser.Repeat
import Mathlib.Tactic

/-! What a parse can do to its state: match a token, complain, pass over a token while it recovers,
report the nesting limit, or mark that a level is entered or left. From these steps follows that no
token is lost, that the journal only grows and that nothing is passed over before a complaint is on
record. -/
namespace LogoServer

/-- The complaint is about the nesting limit. -/
def Complaint.isTooDeep : Complaint → Bool
  | .tooDeep .. => true
  | _ => false

namespace Parser

/-- The token a note is about, matched or passed over. -/
def Note.token? : Note → Option Token
  | .taken t | .skipped t => some t
  | _ => none

/-- The token a note tells to be matched. -/
def Note.taken? : Note → Option Token
  | .taken t => some t
  | _ => none

def takenOf (notes : List Note) : List Token :=
  notes.filterMap Note.taken?

@[simp] theorem takenOf_nil : takenOf [] = [] := rfl

@[simp] theorem takenOf_append (ns ms : List Note) :
    takenOf (ns ++ ms) = takenOf ns ++ takenOf ms :=
  List.filterMap_append

/-- Matched tokens are some of those the notes are about. -/
theorem takenOf_sublist (notes : List Note) :
    (takenOf notes).Sublist (notes.filterMap Note.token?) := by
  induction notes with
  | nil => exact .slnil
  | cons note notes ih =>
    cases note with
    | taken t => exact ih.cons_cons t
    | skipped t => exact ih.cons t
    | complained e => exact ih
    | entered => exact ih
    | left => exact ih

namespace State

def afterTaking (s : State) (t : Token) (rest : List Token) : State :=
  { s with rest, journal := .taken t :: s.journal, recovering := false }

def afterSkipping (s : State) (t : Token) (rest : List Token) : State :=
  { s with rest, journal := .skipped t :: s.journal }

/-- The state after passing over the tokens before `rest`. -/
def afterSkippingAll (s : State) (ts rest : List Token) : State :=
  { s with rest, journal := ts.reverse.map .skipped ++ s.journal }

def afterMarking (s : State) (note : Note) : State :=
  { s with journal := note :: s.journal }

/-- The state after a complaint that was not withheld. -/
def afterComplaint (s : State) (complaint : Complaint) : State :=
  { s.note complaint with recovering := true }

def tooDeepComplaint (s : State) : Complaint :=
  .tooDeep s.current.toLexeme s.limit

def afterTooDeep (s : State) : State :=
  { s.afterComplaint s.tooDeepComplaint with tooDeep := true }

end State

/-- The way from one state of a parse to another, with the notes made on it, oldest first. -/
inductive Passage : State → List Note → State → Prop
  | stay (s : State) : Passage s [] s
  | take {s s' : State} {t : Token} {rest : List Token} {notes : List Note}
      (hrest : s.rest = t :: rest) (h : Passage (s.afterTaking t rest) notes s') :
      Passage s (.taken t :: notes) s'
  | skip {s s' : State} {t : Token} {rest : List Token} {notes : List Note}
      (hrest : s.rest = t :: rest) (hrecovering : s.recovering = true)
      (h : Passage (s.afterSkipping t rest) notes s') : Passage s (.skipped t :: notes) s'
  | complain {s s' : State} {notes : List Note} (complaint : Complaint)
      (hplain : complaint.isTooDeep = false) (hrecovering : s.recovering = false)
      (h : Passage (s.afterComplaint complaint) notes s') :
      Passage s (.complained (.atToken complaint s.current) :: notes) s'
  /-- The nesting limit is reported, even while other complaints are withheld. -/
  | tooDeep {s s' : State} {notes : List Note} (htooDeep : s.tooDeep = false)
      (h : Passage s.afterTooDeep notes s') :
      Passage s (.complained (.atToken s.tooDeepComplaint s.current) :: notes) s'
  /-- The nesting limit is met again. -/
  | tooDeepAgain {s s' : State} {notes : List Note} (htooDeep : s.tooDeep = true)
      (h : Passage { s with recovering := true } notes s') : Passage s notes s'
  /-- A nesting level is entered or left. -/
  | mark {s s' : State} {note : Note} {notes : List Note} (htoken : note.token? = none)
      (herror : note.error? = none) (h : Passage (s.afterMarking note) notes s') :
      Passage s (note :: notes) s'

/-- What holds of every state of a parse: the mark of the end is one, and complaints are only
withheld behind one that is on record. -/
structure State.Sound (s : State) : Prop where
  eof_kind : s.eof.kind = .eof
  recovering : s.recovering = true → s.errors ≠ []
  tooDeep : s.tooDeep = true → s.errors ≠ []

namespace State

theorem sound_start {limit : Nat} {tokens : List Token} {eof : Token} (h : eof.kind = .eof) :
    (start limit tokens eof).Sound :=
  ⟨h, by simp [start], by simp [start]⟩

variable {s : State}

/-- A token that is no mark of the end is the first of those ahead. -/
theorem exists_rest_of_kind_ne_eof (hs : s.eof.kind = .eof) (h : s.current.kind ≠ .eof) :
    ∃ rest, s.rest = s.current :: rest := by
  cases hrest : s.rest with
  | nil =>
    rw [current, hrest] at h
    exact absurd hs h
  | cons t rest => exact ⟨rest, by simp [current, hrest]⟩

theorem kind_of_rest (hs : s.eof.kind = .eof) (h : s.rest = []) : s.current.kind = .eof := by
  rw [current, h]
  exact hs

theorem rest_eq_nil (hk : s.current.kind = .eof) (hne : ∀ t ∈ s.rest, t.kind ≠ .eof) :
    s.rest = [] := by
  cases hrest : s.rest with
  | nil => rfl
  | cons t rest =>
    rw [current, hrest] at hk
    exact absurd hk (hne t (by simp [hrest]))

@[simp] theorem errors_afterTaking (s : State) (t : Token) (rest : List Token) :
    (s.afterTaking t rest).errors = s.errors := by
  simp [afterTaking, errors, Note.error?]

@[simp] theorem errors_afterSkipping (s : State) (t : Token) (rest : List Token) :
    (s.afterSkipping t rest).errors = s.errors := by
  simp [afterSkipping, errors, Note.error?]

@[simp] theorem errors_afterSkippingAll (s : State) (ts rest : List Token) :
    (s.afterSkippingAll ts rest).errors = s.errors := by
  have hnone : (ts.map Note.skipped).filterMap Note.error? = [] := by
    rw [List.filterMap_map]
    exact List.filterMap_eq_nil_iff.mpr fun _ _ => rfl
  simp [afterSkippingAll, errors, hnone]

theorem afterSkippingAll_nil {s : State} {rest : List Token} (h : s.rest = rest) :
    s.afterSkippingAll [] rest = s := by
  subst h
  rfl

theorem afterSkippingAll_append (s : State) (ts us rest rest' : List Token) :
    (s.afterSkippingAll ts rest).afterSkippingAll us rest' =
      s.afterSkippingAll (ts ++ us) rest' := by
  simp [afterSkippingAll]

theorem errors_afterMarking (s : State) {note : Note} (h : note.error? = none) :
    (s.afterMarking note).errors = s.errors := by
  simp [afterMarking, errors, h]

@[simp] theorem errors_afterComplaint (s : State) (complaint : Complaint) :
    (s.afterComplaint complaint).errors = s.errors ++ [.atToken complaint s.current] := by
  simp [afterComplaint, note, errors, Note.error?]

@[simp] theorem errors_afterTooDeep (s : State) :
    s.afterTooDeep.errors = s.errors ++ [.atToken s.tooDeepComplaint s.current] :=
  errors_afterComplaint s s.tooDeepComplaint

end State

namespace Passage

variable {s t u : State} {ns ms : List Note}

theorem trans (h : Passage s ns t) (h' : Passage t ms u) : Passage s (ns ++ ms) u := by
  induction h with
  | stay s => exact h'
  | take hrest _ ih => exact .take hrest (ih h')
  | skip hrest hrecovering _ ih => exact .skip hrest hrecovering (ih h')
  | complain complaint hplain hrecovering _ ih =>
    exact .complain complaint hplain hrecovering (ih h')
  | tooDeep htooDeep _ ih => exact .tooDeep htooDeep (ih h')
  | tooDeepAgain htooDeep _ ih => exact .tooDeepAgain htooDeep (ih h')
  | mark htoken herror _ ih => exact .mark htoken herror (ih h')

/-- The tokens ahead are those the notes are about, then those still ahead at the end. -/
theorem rest_eq (h : Passage s ns t) : s.rest = ns.filterMap Note.token? ++ t.rest := by
  induction h with
  | stay s => rfl
  | take hrest _ ih =>
    rw [hrest, List.filterMap_cons, Note.token?, List.cons_append, ← ih]
    rfl
  | skip hrest _ _ ih =>
    rw [hrest, List.filterMap_cons, Note.token?, List.cons_append, ← ih]
    rfl
  | complain _ _ _ _ ih => exact ih
  | tooDeep _ _ ih => exact ih
  | tooDeepAgain _ _ ih => exact ih
  | mark htoken _ _ ih =>
    rw [List.filterMap_cons, htoken]
    exact ih

theorem rest_le (h : Passage s ns t) : t.rest.length ≤ s.rest.length := by
  have hlength := congrArg List.length h.rest_eq
  rw [List.length_append] at hlength
  omega

/-- Errors are only added, and the notes tell which. -/
theorem errors_eq (h : Passage s ns t) : t.errors = s.errors ++ ns.filterMap Note.error? := by
  induction h with
  | stay s => simp
  | take _ _ ih => simpa [Note.error?, List.filterMap_cons] using ih
  | skip _ _ _ ih => simpa [Note.error?, List.filterMap_cons] using ih
  | complain _ _ _ _ ih => simpa [Note.error?, List.filterMap_cons] using ih
  | tooDeep _ _ ih => simpa [Note.error?, List.filterMap_cons] using ih
  | tooDeepAgain _ _ ih => exact ih
  | mark _ herror _ ih =>
    rw [List.filterMap_cons, herror, ih, State.errors_afterMarking _ herror]

/-- The journal only grows, newest note first. -/
theorem journal_eq (h : Passage s ns t) : t.journal = ns.reverse ++ s.journal := by
  induction h with
  | stay s => rfl
  | tooDeepAgain _ _ ih => exact ih
  | take _ _ ih | skip _ _ _ ih | complain _ _ _ _ ih | tooDeep _ _ ih | mark _ _ _ ih =>
    rw [ih, List.reverse_cons, List.append_assoc]
    rfl

theorem eof_eq (h : Passage s ns t) : t.eof = s.eof := by
  induction h with
  | stay s => rfl
  | tooDeepAgain _ _ ih | take _ _ ih | skip _ _ _ ih | complain _ _ _ _ ih | tooDeep _ _ ih
  | mark _ _ _ ih => exact ih

theorem errors_eq_nil (h : Passage s ns t) (ht : t.errors = []) : s.errors = [] := by
  rw [h.errors_eq] at ht
  exact (List.append_eq_nil_iff.mp ht).1

theorem sound (h : Passage s ns t) (hs : s.Sound) : t.Sound := by
  induction h with
  | stay s => exact hs
  | take _ _ ih =>
    refine ih ⟨hs.eof_kind, by simp [State.afterTaking], ?_⟩
    rw [State.errors_afterTaking]
    exact hs.tooDeep
  | skip _ _ _ ih =>
    refine ih ⟨hs.eof_kind, ?_, ?_⟩ <;> rw [State.errors_afterSkipping]
    · exact hs.recovering
    · exact hs.tooDeep
  | complain _ _ _ _ ih => exact ih ⟨hs.eof_kind, by simp, by simp⟩
  | tooDeep _ _ ih => exact ih ⟨hs.eof_kind, by simp, by simp⟩
  | tooDeepAgain htooDeep _ ih => exact ih ⟨hs.eof_kind, fun _ => hs.tooDeep htooDeep, hs.tooDeep⟩
  | mark _ herror _ ih =>
    refine ih ⟨hs.eof_kind, ?_, ?_⟩ <;> rw [State.errors_afterMarking _ herror]
    · exact hs.recovering
    · exact hs.tooDeep

/-- Where nothing was complained about, every token passed was matched. -/
theorem token?_eq_takenOf (h : Passage s ns t) (hs : s.Sound) (ht : t.errors = []) :
    ns.filterMap Note.token? = takenOf ns := by
  induction h with
  | stay s => rfl
  | take hrest htail ih =>
    have htaken := ih (Passage.sound (.take hrest (.stay _)) hs) ht
    rw [List.filterMap_cons, htaken]
    rfl
  | skip hrest hrecovering htail _ =>
    have herrors := htail.errors_eq_nil ht
    rw [State.errors_afterSkipping] at herrors
    exact absurd herrors (hs.recovering hrecovering)
  | complain complaint _ _ htail _ => exact absurd (htail.errors_eq_nil ht) (by simp)
  | tooDeep _ htail _ => exact absurd (htail.errors_eq_nil ht) (by simp)
  | tooDeepAgain htooDeep htail _ => exact absurd (htail.errors_eq_nil ht) (hs.tooDeep htooDeep)
  | @mark s s' note notes htoken herror htail ih =>
    have htaken := ih (Passage.sound (.mark htoken herror (.stay _)) hs) ht
    have hnote : note.taken? = none := by
      cases note <;> first | rfl | cases htoken
    rw [takenOf, List.filterMap_cons, List.filterMap_cons, htoken, hnote]
    exact htaken

end Passage

end Parser

end LogoServer
