import LogoServer.Proofs.Registry.Onward
import LogoServer.Proofs.Server.Session
import Mathlib.Tactic

/-! What happens to a server, one thing after another: calls at any times, the publications they
prepare, each carried out at any later moment, and workers that take their turns in between. -/
namespace LogoServer

/-- A new text of a document. -/
structure Revision where
  uri : String
  version : Int
  text : String
  deriving DecidableEq, Repr

def Revision.message (rev : Revision) : Message :=
  .publishDiagnostics rev.uri (Parsed.ofText rev.text).diagnostics (some rev.version)

def Call.given? : Call → Option Revision
  | .opened uri version text => some ⟨uri, version, text⟩
  | .changed uri version changes =>
    (Call.changed uri version changes).givenText?.map fun given => ⟨given.1, version, given.2⟩
  | _ => none

/-- The new text that is taken over from a call: it has to be within the limit. -/
def Call.revision? (maxSize : Nat) (c : Call) : Option Revision :=
  c.given?.filter fun rev => rev.text.utf8ByteSize ≤ maxSize

/-- After the call a document is not open. -/
def Call.releases (c : Call) (u : String) : Bool :=
  c = .closed u ∨ c = .shutdown

def Effect.message? : Effect → Option Message
  | .sent message => some message
  | .logged _ => none

/-- Something that happened to a server. -/
inductive Happening where
  /-- A call was answered; publications were prepared. -/
  | call (c : Call) (prepared : List Publication)
  /-- A publication was carried out. -/
  | publication (p : Publication) (effects : List Effect)
  /-- A worker took a step. -/
  | work (worker : Nat)
  deriving DecidableEq, Repr

namespace Happening

def revision? (maxSize : Nat) : Happening → Option Revision
  | .call c _ => c.revision? maxSize
  | _ => none

/-- A new text of the document was taken over. -/
def revises (maxSize : Nat) (u : String) (x : Happening) : Bool :=
  (x.revision? maxSize).any (·.uri = u)

def releases (u : String) : Happening → Bool
  | .call c _ => c.releases u
  | _ => false

def prepared : Happening → List Publication
  | .call _ prepared => prepared
  | _ => []

def carriedOut : Happening → List Publication
  | .publication p _ => [p]
  | _ => []

/-- What carrying out a publication told the editor. -/
def sent : Happening → List Message
  | .publication _ effects => effects.filterMap Effect.message?
  | _ => []

end Happening

namespace Server

open Registry (Onward)

inductive Step (s : Server) : Happening → Server → Prop
  -- What a call prepares is what it adds to the publications to come.
  | call (now : Nat) (c : Call) :
      Step s (.call c ((s.call now c).server.pending.drop s.pending.length)) (s.call now c).server
  | publish {p : Publication} (hp : p ∈ s.pending) :
      Step s (.publication p ({ s with pending := s.pending.erase p }.publish p).1)
        ({ s with pending := s.pending.erase p }.publish p).2
  | work (worker : Nat) :
      Step s (.work worker) { s with registry := s.registry.update worker Worker.step }

/-- What happened on the way from a server to another, newest first. -/
inductive Course (s : Server) : List Happening → Server → Prop
  | refl : Course s [] s
  | step {past : List Happening} {s' s'' : Server} {x : Happening} (h : Course s past s')
      (hx : Step s' x s'') : Course s (x :: past) s''

/-- A course can be cut anywhere. -/
theorem Course.split {s s'' : Server} {before : List Happening} (after : List Happening)
    (h : Course s (after ++ before) s'') : ∃ s', Course s before s' ∧ Course s' after s'' := by
  induction after generalizing s'' with
  | nil => exact ⟨s'', h, .refl⟩
  | cons x after ih =>
    cases h with
    | step h hx =>
      obtain ⟨s', hbefore, hafter⟩ := ih h
      exact ⟨s', hbefore, hafter.step hx⟩

/-! ### What can happen at once -/

/-- What holds of a server at any moment. -/
structure Sound (maxSize : Nat) (s : Server) : Prop where
  valid : s.registry.Valid
  maxSize_eq : s.maxSize = maxSize
  ticketed : ∀ (n : Nat) (w : Worker), s.registry.workers[n]? = some w → w.Ticketed

theorem sound_start (delay maxSize : Nat) : Sound maxSize (.start delay maxSize) where
  valid := Registry.valid_start delay
  maxSize_eq := rfl
  ticketed := by simp [start]

/-- What stays so whatever happens. -/
structure GoesOn (s s' : Server) : Prop where
  valid : s'.registry.Valid
  maxSize_eq : s'.maxSize = s.maxSize
  onward : Onward s.registry.workers s'.registry.workers

/-- The server takes over a new text and prepares its publication, under a ticket that was not given
out before. -/
structure Takes (s : Server) (rev : Revision) (p : Publication) (s' : Server) : Prop where
  uri_eq : p.uri = rev.uri
  version_eq : p.version = rev.version
  pending_eq : s'.pending = s.pending ++ [p]
  versions : ∀ v, s'.versions[v]? = if rev.uri = v then some rev.version else s.versions[v]?
  live : ∀ v, s'.registry.live[v]? = if rev.uri = v then some p.worker else s.registry.live[v]?
  fresh : ∀ w, s.registry.workers[p.worker]? = some w → w.accepted ≤ p.ticket
  entrusted : ∃ w, s'.registry.workers[p.worker]? = some w ∧ w.Entrusted p.ticket rev.text ∧
    ∃ x ∈ w.foreseen.2, x.1.ticket = p.ticket

/-- The server takes over no text; it forgets the versions of the documents that are released. -/
structure Leaves (s : Server) (released : String → Bool) (pending : List Publication)
    (s' : Server) : Prop where
  pending_eq : s'.pending = pending
  versions : ∀ v, s'.versions[v]? = if released v then none else s.versions[v]?
  live : ∀ v, released v = false → s'.registry.live[v]? = s.registry.live[v]?

variable {s s' : Server} {maxSize now : Nat} {u : String} {c : Call} {x : Happening}
  {p : Publication} {rev : Revision}

theorem Sound.goesOn (hs : Sound maxSize s) (h : GoesOn s s') : Sound maxSize s' :=
  ⟨h.valid, h.maxSize_eq.trans hs.maxSize_eq, h.onward.ticketed hs.ticketed⟩

theorem Sound.serving (hs : Sound maxSize s) {n : Nat} (h : s.registry.live[u]? = some n) :
    ∃ w, s.registry.workers[n]? = some w ∧ w.Serving := by
  have hassigned : s.registry.assigned? u = some (n, none) := by
    simp [Registry.assigned?, h]
  obtain ⟨w, hw, hserving, _⟩ := hs.valid.serving u n none hassigned
  exact ⟨w, hw, hserving⟩

theorem call_changed (uri : String) (version : Int) (changes : List Change) :
    (s.call now (.changed uri version changes)).server =
      ((Call.changed uri version changes).givenText?).elim s fun given =>
        (s.update now given.1 version given.2).2 :=
  change_eq s now uri version changes

theorem call_of_given (h : c.given? = some rev) :
    (s.call now c).server = (s.update now rev.uri rev.version rev.text).2 := by
  cases c with
  | opened uri version text =>
    cases h
    rfl
  | changed uri version changes =>
    obtain ⟨given, hgiven, rfl⟩ := Option.map_eq_some_iff.mp h
    rw [call_changed, hgiven]
    rfl
  | _ => cases h

theorem update_takes (hs : Sound maxSize s) (now : Nat)
    (hsize : rev.text.utf8ByteSize ≤ s.maxSize) :
    GoesOn s (s.update now rev.uri rev.version rev.text).2 ∧
      ∃ p, Takes s rev p (s.update now rev.uri rev.version rev.text).2 := by
  obtain ⟨n, r, hacquire, hvalid, _, hassigned, _⟩ := Registry.acquire_spec hs.valid now rev.uri
  obtain ⟨w, hw, _, _⟩ := hvalid.serving rev.uri n none hassigned
  obtain ⟨_, hsubmit, _, _, hvalid', _⟩ :=
    Registry.submit_spec hvalid hassigned hw (.setText rev.text)
  obtain ⟨hacquired, hothers⟩ := Registry.acquire_onward s.registry now rev.uri
  rw [hacquire] at hacquired hothers
  obtain ⟨hsubmitted, hlive⟩ := Registry.submit_onward hsubmit
  obtain ⟨w', hw', hentrusted⟩ :=
    Registry.submit_entrusts (hacquired.ticketed hs.ticketed) hsubmit
  rw [update_eq rev.version hsize hacquire hsubmit]
  refine ⟨⟨hvalid', rfl, hacquired.trans hsubmitted⟩, ⟨rev.uri, rev.version, n, w.accepted⟩,
    rfl, rfl, rfl, fun v => ?_, fun v => ?_, fun w₀ hw₀ => ?_, w', hw', hentrusted⟩
  · simp [Std.TreeMap.getElem?_insert]
  · rw [hlive]
    split_ifs with hv
    · rw [← hv, Registry.live_of_assigned? hassigned]
    · exact hothers v hv
  · obtain ⟨w₁, hw₁, hmoves⟩ := hacquired.goesOn n w₀ hw₀
    rw [hw] at hw₁
    cases hw₁
    exact hmoves.accepted_le

theorem ask_onward (s : Server) (now : Nat) (u : String) (request : Request) :
    ∃ r, (s.ask now u request).2 = { s with registry := r } ∧
      Onward s.registry.workers r.workers ∧ r.live = s.registry.live := by
  obtain ⟨hcleaned, hlive⟩ := Registry.cleanUp_onward s.registry now
  unfold ask
  rw [Registry.find_eq]
  cases (s.registry.cleanUp now).assigned? u with
  | none => exact ⟨_, rfl, hcleaned, hlive⟩
  | some e =>
    simp only [Option.map_some]
    cases hsubmit : (s.registry.cleanUp now).submit e.1 u request with
    | error cause => exact ⟨_, rfl, hcleaned, hlive⟩
    | ok given =>
      obtain ⟨ticket, r⟩ := given
      obtain ⟨hsubmitted, hlive'⟩ := Registry.submit_onward hsubmit
      obtain ⟨hawaited, hlive''⟩ := Registry.await_onward r e.1 u ticket
      exact ⟨_, rfl, (hcleaned.trans hsubmitted).trans hawaited,
        (hlive''.trans hlive').trans hlive⟩

theorem Leaves.of_registry {released : String → Bool} {r : Registry}
    (hreleased : ∀ v, released v = false) (hlive : r.live = s.registry.live) :
    Leaves s released s.pending { s with registry := r } where
  pending_eq := rfl
  versions := fun v => by simp [hreleased]
  live := fun v _ => by rw [hlive]

theorem ask_leaves (hs : Sound maxSize s) {request : Request}
    {answer : Document → Except AnalysisError Reply}
    (hanswer : ∀ number document, request.perform number document =
      (.returned (answer document), document)) (now : Nat) (u : String)
    {released : String → Bool} (hreleased : ∀ v, released v = false) :
    GoesOn s (s.ask now u request).2 ∧ Leaves s released s.pending (s.ask now u request).2 := by
  obtain ⟨r', hask', hvalid, _⟩ := ask_spec hs.valid now u hanswer
  obtain ⟨r, hask, honward, hlive⟩ := ask_onward s now u request
  have hregistry : r' = r := by
    rw [hask'] at hask
    exact congrArg Server.registry hask
  rw [hask]
  exact ⟨⟨hregistry ▸ hvalid, rfl, honward⟩, .of_registry hreleased hlive⟩

theorem close_leaves (hs : Sound maxSize s) (now : Nat) (u : String) :
    GoesOn s (s.close now u).2 ∧
      Leaves s (Call.closed u).releases s.pending (s.close now u).2 := by
  obtain ⟨hvalid, _⟩ := Registry.close_spec hs.valid now u
  obtain ⟨honward, hlive⟩ := Registry.close_onward s.registry now u
  refine ⟨⟨hvalid, rfl, honward⟩, rfl, fun v => ?_, fun v hv => hlive v ?_⟩
  · change (s.versions.erase u)[v]? = _
    simp [Std.TreeMap.getElem?_erase, Call.releases]
  · simpa [Call.releases] using hv

theorem shutdown_leaves (hs : Sound maxSize s) :
    GoesOn s s.shutdown ∧ Leaves s Call.shutdown.releases s.pending s.shutdown := by
  obtain ⟨hvalid, _⟩ := Registry.shutdownAll_spec hs.valid
  refine ⟨⟨hvalid, rfl, Registry.shutdownAll_onward s.registry⟩, rfl, fun v => ?_, fun v hv => ?_⟩
  · simp [shutdown, Call.releases]
  · simp [Call.releases] at hv

/-- Calls that are not meant to give a document a text. -/
theorem call_leaves (hs : Sound maxSize s) (now : Nat) (hgiven : c.given? = none) :
    GoesOn s (s.call now c).server ∧
      Leaves s c.releases s.pending (s.call now c).server := by
  have hstay : (∀ v, c.releases v = false) → GoesOn s s ∧ Leaves s c.releases s.pending s :=
    fun hc => ⟨⟨hs.valid, rfl, .refl _⟩, .of_registry hc rfl⟩
  cases c with
  | opened => cases hgiven
  | changed uri version changes =>
    rw [call_changed, Option.map_eq_none_iff.mp hgiven]
    exact hstay fun v => by simp [Call.releases]
  | closed uri => exact close_leaves hs now uri
  | shutdown => exact shutdown_leaves hs
  | highlighting uri =>
    exact ask_leaves hs (fun _ _ => rfl) now uri fun v => by simp [Call.releases]
  | declaration uri line character =>
    exact ask_leaves hs (fun _ _ => rfl) now uri fun v => by simp [Call.releases]
  | handshake | ready | saved => exact hstay fun v => by simp [Call.releases]

theorem releases_of_given (hgiven : c.given? = some rev) (v : String) : c.releases v = false := by
  cases c with
  | opened | changed => simp [Call.releases]
  | _ => cases hgiven

theorem releases_of_revision (h : c.revision? maxSize = some rev) (v : String) :
    c.releases v = false :=
  releases_of_given (Option.filter_eq_some_iff.mp h).1 v

/-- What a call can come to. -/
theorem call_cases (hs : Sound maxSize s) (now : Nat) (c : Call) :
    GoesOn s (s.call now c).server ∧
      ((∃ rev p, c.revision? maxSize = some rev ∧ Takes s rev p (s.call now c).server) ∨
        (c.revision? maxSize = none ∧ Leaves s c.releases s.pending (s.call now c).server)) := by
  unfold Call.revision?
  rw [← hs.maxSize_eq]
  cases hgiven : c.given? with
  | none =>
    obtain ⟨hgoesOn, hleaves⟩ := call_leaves hs now hgiven
    exact ⟨hgoesOn, .inr ⟨rfl, hleaves⟩⟩
  | some rev =>
    rw [call_of_given hgiven]
    by_cases hsize : rev.text.utf8ByteSize ≤ s.maxSize
    · obtain ⟨hgoesOn, p, htakes⟩ := update_takes hs now hsize
      exact ⟨hgoesOn, .inl ⟨rev, p, by simp [hsize], htakes⟩⟩
    · rw [update_of_lt rev.version (by omega)]
      exact ⟨⟨hs.valid, rfl, .refl _⟩, .inr ⟨by simpa using hsize,
        .of_registry (releases_of_given hgiven) rfl⟩⟩

/-- What can happen at once. -/
theorem Step.cases (hs : Sound maxSize s) (h : Step s x s') :
    GoesOn s s' ∧
      ((∃ c rev p, x = .call c [p] ∧ c.revision? maxSize = some rev ∧ Takes s rev p s') ∨
        (∃ c, x = .call c [] ∧ c.revision? maxSize = none ∧ Leaves s c.releases s.pending s') ∨
        (∃ p ∈ s.pending,
          x = .publication p ({ s with pending := s.pending.erase p }.publish p).1 ∧
          Leaves s (fun _ => false) (s.pending.erase p) s') ∨
        (∃ n, x = .work n ∧ Leaves s (fun _ => false) s.pending s')) := by
  cases h with
  | call now c =>
    obtain ⟨hgoesOn, ⟨rev, p, hrevision, htakes⟩ | ⟨hrevision, hleaves⟩⟩ := call_cases hs now c
    · refine ⟨hgoesOn, .inl ⟨c, rev, p, ?_, hrevision, htakes⟩⟩
      rw [htakes.pending_eq, List.drop_left]
    · refine ⟨hgoesOn, .inr (.inl ⟨c, ?_, hrevision, hleaves⟩)⟩
      rw [hleaves.pending_eq, List.drop_length]
  | @publish p hp =>
    obtain ⟨hvalid, _⟩ := Registry.await_frame hs.valid p.worker p.uri p.ticket
    obtain ⟨honward, hlive⟩ := Registry.await_onward s.registry p.worker p.uri p.ticket
    rw [publish_eq]
    exact ⟨⟨hvalid, rfl, honward⟩, .inr (.inr (.inl ⟨p, hp, rfl,
      rfl, fun v => by simp, fun v _ => by rw [hlive]⟩))⟩
  | work n =>
    obtain ⟨hvalid, _⟩ := Registry.update_frame hs.valid n Worker.step fun w _ hserving =>
      ⟨hserving.step, Worker.foreseen_step hserving⟩
    exact ⟨⟨hvalid, rfl, .modify n fun w _ => .step .refl⟩, .inr (.inr (.inr ⟨n, rfl,
      .of_registry (fun _ => rfl) rfl⟩))⟩

/-- A document of which no new text is taken over keeps its version and its worker, unless it is
released. -/
theorem Step.keeps (hs : Sound maxSize s) (h : Step s x s') (hx : x.revises maxSize u = false) :
    s'.versions[u]? = (if x.releases u then none else s.versions[u]?) ∧
      (x.releases u = false → s'.registry.live[u]? = s.registry.live[u]?) := by
  obtain ⟨_, ⟨c, rev, p, rfl, hrevision, htakes⟩ | ⟨c, rfl, _, hleaves⟩ | ⟨p, _, rfl, hleaves⟩ |
    ⟨n, rfl, hleaves⟩⟩ := h.cases hs
  · have hne : rev.uri ≠ u := by
      simpa [Happening.revises, Happening.revision?, hrevision] using hx
    have hreleases : c.releases u = false := releases_of_revision hrevision u
    rw [htakes.versions, htakes.live, if_neg hne, if_neg hne, Happening.releases, hreleases]
    exact ⟨rfl, fun _ => rfl⟩
  · exact ⟨hleaves.versions u, hleaves.live u⟩
  · exact ⟨hleaves.versions u, hleaves.live u⟩
  · exact ⟨hleaves.versions u, hleaves.live u⟩

/-- A closed document has no version. -/
theorem Step.closed {prepared : List Publication} (hs : Sound maxSize s)
    (h : Step s (.call (.closed u) prepared) s') : s'.versions[u]? = none := by
  have hreleases : (Happening.call (.closed u) prepared).releases u = true := by
    simp [Happening.releases, Call.releases]
  rw [(h.keeps hs rfl).1, hreleases, if_pos rfl]

theorem Step.takes (hs : Sound maxSize s) (h : Step s x s') (hx : x.revision? maxSize = some rev) :
    ∃ p, x.prepared = [p] ∧ Takes s rev p s' := by
  obtain ⟨_, ⟨c, rev', p, rfl, hrevision, htakes⟩ | ⟨c, rfl, hrevision, _⟩ | ⟨p, _, rfl, _⟩ |
    ⟨n, rfl, _⟩⟩ := h.cases hs
  · obtain rfl : rev' = rev := Option.some.inj (hrevision.symm.trans hx)
    exact ⟨p, rfl, htakes⟩
  · cases hrevision.symm.trans hx
  · cases hx
  · cases hx

theorem Course.sound {past : List Happening} (h : Course s past s') (hs : Sound maxSize s) :
    Sound maxSize s' := by
  induction h with
  | refl => exact hs
  | step _ hx ih => exact ih.goesOn (hx.cases ih).1

/-! ### Carrying out a publication -/

/-- Diagnostics are sent under the version that the document has. -/
theorem publish_cases (s : Server) (p : Publication) :
    (s.publish p).1.filterMap Effect.message? = [] ∨
      ∃ found, (s.registry.await p.worker p.uri p.ticket).1 = .ok (.diagnostics found) ∧
        s.versions[p.uri]? = some p.version ∧
        (s.publish p).1.filterMap Effect.message? =
          [.publishDiagnostics p.uri found (some p.version)] := by
  unfold publish
  generalize s.registry.await p.worker p.uri p.ticket = awaited
  obtain ⟨result, registry⟩ := awaited
  cases result with
  | error cause => exact .inl rfl
  | ok reply =>
    cases reply with
    | diagnostics found =>
      dsimp only
      split_ifs with hversion
      · exact .inr ⟨found, rfl, hversion, rfl⟩
      · exact .inl rfl
    | _ => exact .inl rfl

/-- What is published about a document stems from a publication of the version it has. -/
theorem Step.exists_of_mem_sent {found : List Diagnostic} {version : Option Int} (h : Step s x s')
    (hsent : .publishDiagnostics u found version ∈ x.sent) :
    ∃ p ∈ s.pending, x = .publication p ({ s with pending := s.pending.erase p }.publish p).1 ∧
      p.uri = u ∧ s.versions[u]? = some p.version := by
  cases h with
  | call => cases hsent
  | work => cases hsent
  | @publish p hp =>
    rcases publish_cases { s with pending := s.pending.erase p } p with
      hnil | ⟨_, _, hversion, hone⟩
    · rw [Happening.sent, hnil] at hsent
      cases hsent
    · rw [Happening.sent, hone, List.mem_singleton] at hsent
      cases hsent
      exact ⟨p, hp, rfl, rfl, hversion⟩

theorem publish_of_ok {found : List Diagnostic}
    (h : (s.registry.await p.worker p.uri p.ticket).1 = .ok (.diagnostics found))
    (hversion : s.versions[p.uri]? = some p.version) :
    (s.publish p).1 = [.sent (.publishDiagnostics p.uri found (some p.version))] := by
  unfold publish
  generalize s.registry.await p.worker p.uri p.ticket = awaited at h
  obtain ⟨result, registry⟩ := awaited
  cases h
  exact congrArg Prod.fst (if_pos hversion)

end Server

end LogoServer
