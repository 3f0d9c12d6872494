import LogoServer.Proofs.Server.Course
import Mathlib.Tactic

/-! The publications of diagnostics: each text that is taken over has one of its own, which tells
the editor at most once, about that text, and only under the version that the document has by
then. -/
namespace LogoServer.Server

def tasks (past : List Happening) : List Publication :=
  past.flatMap Happening.prepared

def carriedOut (past : List Happening) : List Publication :=
  past.flatMap Happening.carriedOut

/-- What a publication has told the editor. -/
def sentBy (p : Publication) (past : List Happening) : List Message :=
  (past.filter fun x => p ∈ x.carriedOut).flatMap Happening.sent

variable {s s' : Server} {maxSize delay : Nat} {past : List Happening} {x : Happening}
  {p : Publication} {rev : Revision}

theorem sentBy_cons_of_notMem (h : p ∉ x.carriedOut) : sentBy p (x :: past) = sentBy p past := by
  simp [sentBy, h]

theorem sentBy_cons_of_mem (h : p ∈ x.carriedOut) :
    sentBy p (x :: past) = x.sent ++ sentBy p past := by
  simp [sentBy, h]

theorem sentBy_append (p : Publication) (after before : List Happening) :
    sentBy p (after ++ before) = sentBy p after ++ sentBy p before := by
  simp [sentBy]

theorem sentBy_eq_nil (h : p ∉ carriedOut past) : sentBy p past = [] := by
  have hnone : past.filter (fun x => p ∈ x.carriedOut) = [] := by
    simpa [carriedOut] using h
  rw [sentBy, hnone]
  rfl

/-- A publication that is about a text. -/
structure About (s : Server) (p : Publication) (rev : Revision) : Prop where
  uri_eq : p.uri = rev.uri
  version_eq : p.version = rev.version
  entrusted : ∃ w, s.registry.workers[p.worker]? = some w ∧ w.Entrusted p.ticket rev.text

theorem About.goesOn (h : About s p rev) (hs : GoesOn s s') : About s' p rev := by
  obtain ⟨w, hw, hentrusted⟩ := h.entrusted
  obtain ⟨w', hw', hmoves⟩ := hs.onward.goesOn p.worker w hw
  exact ⟨h.uri_eq, h.version_eq, w', hw', hentrusted.moves hmoves⟩

theorem Takes.about (h : Takes s rev p s') : About s' p rev := by
  obtain ⟨w, hw, hentrusted, _⟩ := h.entrusted
  exact ⟨h.uri_eq, h.version_eq, w, hw, hentrusted⟩

/-- A publication tells about its own text or nothing. -/
theorem About.sent (h : About s p rev) (pending : List Publication) :
    ({ s with pending }.publish p).1.filterMap Effect.message? = [] ∨
      s.versions[rev.uri]? = some rev.version ∧
        ({ s with pending }.publish p).1.filterMap Effect.message? = [rev.message] := by
  obtain ⟨w, hw, hentrusted⟩ := h.entrusted
  rcases publish_cases { s with pending } p with hnil | ⟨found, hawait, hversion, hsent⟩
  · exact .inl hnil
  · right
    rw [Registry.await_eq p.uri p.ticket hw] at hawait
    rw [hsent, ← h.uri_eq, ← h.version_eq]
    refine ⟨hversion, ?_⟩
    rcases hentrusted.result_settle with hok | herror
    · rw [hok] at hawait
      cases hawait
      rw [Revision.message, h.uri_eq, h.version_eq]
    · rw [herror] at hawait
      cases hawait

/-- An account of the publications. -/
structure Ledger (maxSize : Nat) (past : List Happening) (s : Server) : Prop where
  sound : Sound maxSize s
  /-- A text that is taken over has one publication. -/
  own : ∀ x ∈ past, ∀ rev, x.revision? maxSize = some rev →
    ∃ p, x.prepared = [p] ∧ About s p rev ∧ (sentBy p past).Sublist [rev.message]
  others : ∀ x ∈ past, x.revision? maxSize = none → x.prepared = []
  nodup : (tasks past).Nodup
  perm : (tasks past).Perm (carriedOut past ++ s.pending)

theorem ledger_start (delay maxSize : Nat) : Ledger maxSize [] (.start delay maxSize) where
  sound := sound_start delay maxSize
  own := by simp
  others := by simp
  nodup := .nil
  perm := .refl _

namespace Ledger

theorem mem_tasks (h : Ledger maxSize past s) (hp : p ∈ s.pending) : p ∈ tasks past :=
  h.perm.mem_iff.mpr (List.mem_append_right _ hp)

theorem notMem_carriedOut (h : Ledger maxSize past s) (hp : p ∈ s.pending) :
    p ∉ carriedOut past := by
  have hdisjoint := List.disjoint_of_nodup_append (h.perm.nodup_iff.mp h.nodup)
  exact fun hcarried => hdisjoint hcarried hp

theorem exists_about (h : Ledger maxSize past s) (hp : p ∈ tasks past) :
    ∃ rev, About s p rev := by
  obtain ⟨x, hx, hp⟩ := List.mem_flatMap.mp hp
  cases hrevision : x.revision? maxSize with
  | none =>
    rw [h.others x hx hrevision] at hp
    cases hp
  | some rev =>
    obtain ⟨q, hprepared, habout, _⟩ := h.own x hx rev hrevision
    rw [hprepared, List.mem_singleton] at hp
    exact ⟨rev, hp ▸ habout⟩

/-- A publication that is prepared is a new one. -/
theorem fresh (h : Ledger maxSize past s) (htakes : Takes s rev p s') : p ∉ tasks past := by
  intro hp
  obtain ⟨_, habout⟩ := h.exists_about hp
  obtain ⟨w, hw, hentrusted⟩ := habout.entrusted
  have hle := htakes.fresh w hw
  have hlt := hentrusted.given
  omega

/-- The account goes on if it does for what happens now and stays true of what happened before. -/
theorem extend (h : Ledger maxSize past s) (hs : GoesOn s s')
    (hown : ∀ rev, x.revision? maxSize = some rev → ∃ p, x.prepared = [p] ∧ About s' p rev ∧
      (sentBy p (x :: past)).Sublist [rev.message])
    (hothers : x.revision? maxSize = none → x.prepared = [])
    (hsent : ∀ p rev, About s p rev → (sentBy p past).Sublist [rev.message] →
      (sentBy p (x :: past)).Sublist [rev.message])
    (hnodup : (x.prepared ++ tasks past).Nodup)
    (hperm : (x.prepared ++ tasks past).Perm (x.carriedOut ++ carriedOut past ++ s'.pending)) :
    Ledger maxSize (x :: past) s' where
  sound := h.sound.goesOn hs
  own := fun y hy rev hrev => by
    rcases List.mem_cons.mp hy with rfl | hy
    · exact hown rev hrev
    · obtain ⟨p, hp, habout, hsublist⟩ := h.own y hy rev hrev
      exact ⟨p, hp, habout.goesOn hs, hsent p rev habout hsublist⟩
  others := List.forall_mem_cons.mpr ⟨hothers, h.others⟩
  nodup := hnodup
  perm := hperm

/-- Something happens that prepares no publication and carries none out. -/
theorem pass (h : Ledger maxSize past s) (hs : GoesOn s s') (hrevision : x.revision? maxSize = none)
    (hprepared : x.prepared = []) (hcarried : x.carriedOut = [])
    (hpending : s'.pending = s.pending) : Ledger maxSize (x :: past) s' := by
  refine h.extend hs ?_ (fun _ => hprepared) ?_ ?_ ?_
  · intro rev hrev
    rw [hrevision] at hrev
    cases hrev
  · intro p rev _ hsublist
    rwa [sentBy_cons_of_notMem (by simp [hcarried])]
  · rw [hprepared]
    exact h.nodup
  · rw [hprepared, hcarried, hpending]
    exact h.perm

theorem take {c : Call} (h : Ledger maxSize past s) (hs : GoesOn s s')
    (hrevision : c.revision? maxSize = some rev) (htakes : Takes s rev p s') :
    Ledger maxSize (.call c [p] :: past) s' := by
  have hfresh := h.fresh htakes
  have hsame : ∀ q, sentBy q (.call c [p] :: past) = sentBy q past :=
    fun q => sentBy_cons_of_notMem (by simp [Happening.carriedOut])
  refine h.extend hs ?_ ?_ ?_ ?_ ?_
  · intro rev' hrev'
    obtain rfl : rev = rev' := Option.some.inj (hrevision.symm.trans hrev')
    have hnew : p ∉ carriedOut past := fun hp =>
      hfresh (h.perm.mem_iff.mpr (List.mem_append_left _ hp))
    refine ⟨p, rfl, htakes.about, ?_⟩
    rw [hsame, sentBy_eq_nil hnew]
    exact List.nil_sublist _
  · intro hnone
    cases hrevision.symm.trans hnone
  · intro q rev' _ hsublist
    rwa [hsame]
  · exact List.nodup_cons.mpr ⟨hfresh, h.nodup⟩
  · change (p :: tasks past).Perm (carriedOut past ++ s'.pending)
    rw [htakes.pending_eq, ← List.append_assoc]
    exact (h.perm.cons p).trans (List.perm_append_singleton p _).symm

theorem publish {effects : List Effect} (h : Ledger maxSize past s) (hs : GoesOn s s')
    (hp : p ∈ s.pending) (hpending : s'.pending = s.pending.erase p)
    (heffects : ∀ rev, About s p rev →
      (effects.filterMap Effect.message?).Sublist [rev.message]) :
    Ledger maxSize (.publication p effects :: past) s' := by
  refine h.extend hs (fun _ hrev => nomatch hrev) (fun _ => rfl) ?_ h.nodup ?_
  · intro q rev habout hsublist
    by_cases hqp : q = p
    · -- What is still to come has told nothing before.
      subst hqp
      rw [sentBy_cons_of_mem (List.mem_singleton_self q),
        sentBy_eq_nil (h.notMem_carriedOut hp), List.append_nil]
      exact heffects rev habout
    · rwa [sentBy_cons_of_notMem (by simpa [Happening.carriedOut] using hqp)]
  · change (tasks past).Perm (p :: (carriedOut past ++ s'.pending))
    rw [hpending]
    have hsplit := (List.perm_cons_erase hp).append_left (carriedOut past)
    exact (h.perm.trans hsplit).trans List.perm_middle

theorem step (h : Ledger maxSize past s) (hx : Step s x s') : Ledger maxSize (x :: past) s' := by
  obtain ⟨hs, ⟨c, rev, p, rfl, hrevision, htakes⟩ | ⟨c, rfl, hrevision, hleaves⟩ |
    ⟨p, hp, rfl, hleaves⟩ | ⟨n, rfl, hleaves⟩⟩ := hx.cases h.sound
  · exact h.take hs hrevision htakes
  · exact h.pass hs hrevision rfl rfl hleaves.pending_eq
  · refine h.publish hs hp hleaves.pending_eq fun rev habout => ?_
    rcases habout.sent (s.pending.erase p) with hnone | ⟨_, hone⟩
    · rw [hnone]
      exact List.nil_sublist _
    · rw [hone]
  · exact h.pass hs rfl rfl rfl hleaves.pending_eq

end Ledger

theorem Course.ledger (h : Course (.start delay maxSize) past s) : Ledger maxSize past s := by
  induction h with
  | refl => exact ledger_start delay maxSize
  | step _ hx ih => exact ih.step hx

variable {u : String} {after : List Happening}

/-- Once a document is closed, nothing is published about it until a new text is taken over. -/
theorem Course.silent (h : Course s after s') (hs : Sound maxSize s) (hu : s.versions[u]? = none)
    (hafter : ∀ x ∈ after, x.revises maxSize u = false) :
    s'.versions[u]? = none ∧
      ∀ x ∈ after, ∀ found version, .publishDiagnostics u found version ∉ x.sent := by
  induction h with
  | refl => exact ⟨hu, by simp⟩
  | step h hx ih =>
    obtain ⟨hfirst, hrest⟩ := List.forall_mem_cons.mp hafter
    obtain ⟨hu', hsilent⟩ := ih hrest
    refine ⟨?_, List.forall_mem_cons.mpr ⟨fun found version hsent => ?_, hsilent⟩⟩
    · rw [(hx.keeps (h.sound hs) hfirst).1, hu', ite_self]
    · obtain ⟨p, _, _, _, hversion⟩ := hx.exists_of_mem_sent hsent
      rw [hu'] at hversion
      cases hversion

/-! ### The last text of a document -/

/-- A document is open, a text is the last that was taken over, and the worker that has to read it
for a publication is to do so or did. -/
structure Stands (s : Server) (rev : Revision) (p : Publication) : Prop where
  about : About s p rev
  version : s.versions[rev.uri]? = some rev.version
  live : s.registry.live[rev.uri]? = some p.worker
  job : ∀ w, s.registry.workers[p.worker]? = some w → ∃ x ∈ w.foreseen.2, x.1.ticket = p.ticket

theorem Takes.stands (h : Takes s rev p s') : Stands s' rev p := by
  obtain ⟨w, hw, _, hjob⟩ := h.entrusted
  refine ⟨h.about, ?_, ?_, fun w' hw' => ?_⟩
  · rw [h.versions, if_pos rfl]
  · rw [h.live, if_pos rfl]
  · rw [hw] at hw'
    cases hw'
    exact hjob

theorem Stands.step (h : Stands s rev p) (hs : Sound maxSize s) (hx : Step s x s')
    (hrevises : x.revises maxSize rev.uri = false) (hreleases : x.releases rev.uri = false) :
    Stands s' rev p := by
  have hgoesOn := (hx.cases hs).1
  obtain ⟨hversions, hlive⟩ := hx.keeps hs hrevises
  have hlive' : s'.registry.live[rev.uri]? = some p.worker := (hlive hreleases).trans h.live
  refine ⟨h.about.goesOn hgoesOn, ?_, hlive', fun w' hw' => ?_⟩
  · rw [hversions, hreleases]
    exact h.version
  · obtain ⟨w, hw, _⟩ := h.about.entrusted
    obtain ⟨y, hy, hticket⟩ := h.job w hw
    obtain ⟨w₁, hw₁, hmoves⟩ := hgoesOn.onward.goesOn p.worker w hw
    obtain ⟨w₂, hw₂, hserving⟩ := (hs.goesOn hgoesOn).serving hlive'
    rw [hw'] at hw₁ hw₂
    cases hw₁
    cases hw₂
    -- The worker still serves, so no job was lost on the way.
    exact ⟨y, (hmoves.serving hserving).2 hy, hticket⟩

theorem Stands.sent (h : Stands s rev p) (hs : Sound maxSize s) (pending : List Publication) :
    ({ s with pending }.publish p).1.filterMap Effect.message? = [rev.message] := by
  obtain ⟨w, hw, hentrusted⟩ := h.about.entrusted
  obtain ⟨_, hw₁, hserving⟩ := hs.serving h.live
  rw [hw] at hw₁
  cases hw₁
  have hawait : (s.registry.await p.worker p.uri p.ticket).1 =
      .ok (.diagnostics (Parsed.ofText rev.text).diagnostics) := by
    rw [Registry.await_eq p.uri p.ticket hw]
    exact hentrusted.result_of_serving hserving (h.job w hw)
  have hversion : s.versions[p.uri]? = some p.version := by
    rw [h.about.uri_eq, h.about.version_eq]
    exact h.version
  rw [publish_of_ok (s := { s with pending }) hawait hversion, Revision.message, h.about.uri_eq,
    h.about.version_eq]
  rfl

theorem Stands.publishes (h : Stands s rev p) (hs : Sound maxSize s) (hx : Step s x s')
    (hp : p ∈ s.pending) : p ∈ s'.pending ∨ rev.message ∈ sentBy p [x] := by
  obtain ⟨_, ⟨_, _, _, _, _, htakes⟩ | ⟨_, _, _, hleaves⟩ | ⟨q, _, rfl, hleaves⟩ |
    ⟨_, _, hleaves⟩⟩ := hx.cases hs
  · rw [htakes.pending_eq]
    exact .inl (List.mem_append_left _ hp)
  · rw [hleaves.pending_eq]
    exact .inl hp
  · by_cases hqp : q = p
    · subst hqp
      rw [sentBy_cons_of_mem (List.mem_singleton_self q), Happening.sent, h.sent hs]
      exact .inr List.mem_cons_self
    · rw [hleaves.pending_eq]
      exact .inl ((List.mem_erase_of_ne (Ne.symm hqp)).mpr hp)
  · rw [hleaves.pending_eq]
    exact .inl hp

/-- As long as a text is the last one of an open document, its publication is to come or has told
the editor. -/
theorem Course.stands (h : Course s after s') (hs : Sound maxSize s) (hstands : Stands s rev p)
    (hp : p ∈ s.pending) (hafter : ∀ x ∈ after,
      x.revises maxSize rev.uri = false ∧ x.releases rev.uri = false) :
    Stands s' rev p ∧ (p ∈ s'.pending ∨ rev.message ∈ sentBy p after) := by
  induction h with
  | refl => exact ⟨hstands, .inl hp⟩
  | @step after s' s'' x h hx ih =>
    obtain ⟨⟨hrevises, hreleases⟩, hrest⟩ := List.forall_mem_cons.mp hafter
    obtain ⟨hstands', hpublished⟩ := ih hrest
    have hs' := h.sound hs
    refine ⟨hstands'.step hs' hx hrevises hreleases, ?_⟩
    rw [← List.singleton_append, sentBy_append, List.mem_append]
    rcases hpublished with hpending | hmessage
    · exact (hstands'.publishes hs' hx hpending).imp_right .inl
    · exact .inr (.inr hmessage)

/-- However calls, publications and the work of workers follow each other, no diagnostics are lost
and none are sent for a closed document. Each text that is taken over has a publication of its own,
which is carried out at most once and tells at most once, about that text; from a closing to the
next text of the document nothing is published about it; and the last text of a document that is
still open has been published unless its publication is still to come. -/
theorem Course.publications (h : Course (.start delay maxSize) past s) :
    (tasks past).Nodup ∧ (tasks past).Perm (carriedOut past ++ s.pending) ∧
      (∀ x ∈ past, ∀ rev, x.revision? maxSize = some rev →
        ∃ p, x.prepared = [p] ∧ (sentBy p past).Sublist [rev.message]) ∧
      (∀ after u prepared before, past = after ++ .call (.closed u) prepared :: before →
        (∀ x ∈ after, x.revises maxSize u = false) →
        ∀ x ∈ after, ∀ found version, .publishDiagnostics u found version ∉ x.sent) ∧
      ∀ after x before rev, past = after ++ x :: before → x.revision? maxSize = some rev →
        (∀ y ∈ after, y.revises maxSize rev.uri = false ∧ y.releases rev.uri = false) →
        ∃ p, x.prepared = [p] ∧ (p ∉ s.pending → sentBy p after = [rev.message]) := by
  have hledger := h.ledger
  have hown : ∀ x ∈ past, ∀ rev, x.revision? maxSize = some rev →
      ∃ p, x.prepared = [p] ∧ (sentBy p past).Sublist [rev.message] := by
    intro x hx rev hrev
    obtain ⟨p, hprepared, _, hsublist⟩ := hledger.own x hx rev hrev
    exact ⟨p, hprepared, hsublist⟩
  refine ⟨hledger.nodup, hledger.perm, hown, ?_, ?_⟩
  · rintro after u prepared before rfl hafter
    obtain ⟨s₁, hbefore, hrest⟩ := h.split after
    have hs₁ := hbefore.sound (sound_start delay maxSize)
    cases hbefore with
    | step h₀ hx =>
      have hu := hx.closed (h₀.sound (sound_start delay maxSize))
      exact (hrest.silent hs₁ hu hafter).2
  · rintro after x before rev rfl hrev hafter
    obtain ⟨s₁, hbefore, hrest⟩ := h.split after
    have hs₁ := hbefore.sound (sound_start delay maxSize)
    cases hbefore with
    | step h₀ hx =>
      obtain ⟨p, hprepared, htakes⟩ := hx.takes (h₀.sound (sound_start delay maxSize)) hrev
      have hp : p ∈ s₁.pending := by simp [htakes.pending_eq]
      refine ⟨p, hprepared, fun hdone => ?_⟩
      have hsent := (hrest.stands hs₁ htakes.stands hp hafter).2.resolve_left hdone
      obtain ⟨q, hq, hsublist⟩ := hown x (by simp) rev hrev
      obtain rfl : p = q := List.singleton_inj.mp (hprepared.symm.trans hq)
      rw [sentBy_append] at hsublist
      exact ((List.sublist_append_left _ _).trans hsublist).antisymm
        (List.singleton_sublist.mpr hsent)

theorem publications_after_change :
    ∃ past s, Course (.start 10 100) past s ∧ s.pending = [] ∧
      sentBy ⟨"logo:a", 1, 0, 0⟩ past = [] ∧
      sentBy ⟨"logo:a", 2, 0, 1⟩ (past.take 2) = [Revision.message ⟨"logo:a", 2, "bk 1"⟩] := by
  have h : Course (.start 10 100) _ _ :=
    (((Course.refl.step (.call 0 (.opened "logo:a" 1 "fd"))).step
      (.call 1 (.changed "logo:a" 2 [⟨"bk 1", false⟩]))).step
      (.publish (p := ⟨"logo:a", 1, 0, 0⟩) (by decide +kernel))).step
      (.publish (p := ⟨"logo:a", 2, 0, 1⟩) (by decide +kernel))
  obtain ⟨p, hp, hlast⟩ := (Course.publications h).2.2.2.2 [_, _] _ [_] ⟨"logo:a", 2, "bk 1"⟩ rfl
    (by decide +kernel) (by decide +kernel)
  obtain rfl : ⟨"logo:a", 2, 0, 1⟩ = p := List.singleton_inj.mp (Eq.trans (by decide +kernel) hp)
  exact ⟨_, _, h, by decide +kernel, by decide +kernel, hlast (by decide +kernel)⟩

end LogoServer.Server
