import LogoServer.Proofs.Server.Course
import Mathlib.Tactic

/-! The versions that a server keeps. A document has one exactly as long as it has a worker of its
own, and it is that of the last text taken over. -/
namespace LogoServer

/-- The call is to give a document a text and cannot: the text is too large, a change is for a part
of the document only, or there is no change. -/
def Call.isRefused (maxSize : Nat) : Call → Bool
  | .opened _ _ text => maxSize < text.utf8ByteSize
  | .changed _ _ changes =>
    changes.any Change.isPartial ||
      changes.getLast?.all fun last => maxSize < last.text.utf8ByteSize
  | _ => false

namespace Server

/-- A text is the last that was taken over for its document, and the document was not released
since. -/
def InForce (maxSize : Nat) (past : List Happening) (rev : Revision) : Prop :=
  ∃ after x before, past = after ++ x :: before ∧ x.revision? maxSize = some rev ∧
    ∀ y ∈ after, y.revises maxSize rev.uri = false ∧ y.releases rev.uri = false

variable {s s' : Server} {maxSize delay : Nat} {past : List Happening} {x : Happening} {c : Call}
  {rev : Revision} {u : String}

theorem inForce_cons :
    InForce maxSize (x :: past) rev ↔ x.revision? maxSize = some rev ∨
      (x.revises maxSize rev.uri = false ∧ x.releases rev.uri = false) ∧
        InForce maxSize past rev := by
  constructor
  · rintro ⟨after, y, before, heq, hy, hafter⟩
    cases after with
    | nil =>
      cases heq
      exact .inl hy
    | cons _ after =>
      cases heq
      obtain ⟨hfirst, hrest⟩ := List.forall_mem_cons.mp hafter
      exact .inr ⟨hfirst, after, y, before, rfl, hy, hrest⟩
  · rintro (hx | ⟨hx, after, y, before, rfl, hy, hafter⟩)
    · exact ⟨[], x, past, rfl, hx, by simp⟩
    · exact ⟨x :: after, y, before, rfl, hy, List.forall_mem_cons.mpr ⟨hx, hafter⟩⟩

/-! ### What a step does to the versions -/

theorem call_of_isRefused (hc : c.isRefused s.maxSize) (now : Nat) :
    (s.call now c).server = s := by
  cases c with
  | opened uri version text => exact update_of_lt version (by simpa [Call.isRefused] using hc)
  | changed uri version changes =>
    rw [call_changed]
    cases hpartial : changes.any Change.isPartial with
    | true => simp [Call.givenText?, hpartial]
    | false =>
      cases hlast : changes.getLast? with
      | none => simp [Call.givenText?, hpartial, hlast]
      | some last =>
        -- Its size is all that the last text can be refused for.
        have hsize : s.maxSize < last.text.utf8ByteSize := by
          simpa [Call.isRefused, hpartial, hlast] using hc
        simpa [Call.givenText?, hpartial, hlast] using update_of_lt version hsize
  | _ => cases hc

/-- A document that is released has no worker of its own. -/
theorem Step.live_of_releases (h : Step s x s') (hx : x.releases u = true) :
    s'.registry.live[u]? = none := by
  cases h with
  | call now c =>
    have hc : c = .closed u ∨ c = .shutdown := by
      simpa [Happening.releases, Call.releases] using hx
    rcases hc with rfl | rfl
    · exact Registry.live_close s.registry now u
    · change s.registry.shutdownAll.live[u]? = none
      simp [Registry.shutdownAll_eq]
  | publish => cases hx
  | work => cases hx

theorem exists_of_revises (hx : x.revises maxSize u = true) :
    ∃ rev, x.revision? maxSize = some rev ∧ rev.uri = u := by
  unfold Happening.revises at hx
  cases hrevision : x.revision? maxSize with
  | none => simp [hrevision] at hx
  | some rev => exact ⟨rev, rfl, by simpa [hrevision] using hx⟩

/-- The version and the worker of a document come together and go together. -/
theorem Step.isSome_versions (hs : Sound maxSize s) (h : Step s x s')
    (hu : s.versions[u]?.isSome = s.registry.live[u]?.isSome) :
    s'.versions[u]?.isSome = s'.registry.live[u]?.isSome := by
  cases hrevises : x.revises maxSize u with
  | true =>
    obtain ⟨rev, hrevision, huri⟩ := exists_of_revises hrevises
    obtain ⟨p, _, htakes⟩ := h.takes hs hrevision
    rw [htakes.versions, htakes.live, if_pos huri, if_pos huri]
    rfl
  | false =>
    obtain ⟨hversions, hlive⟩ := h.keeps hs hrevises
    rw [hversions]
    cases hreleases : x.releases u with
    | true => rw [h.live_of_releases hreleases, if_pos rfl]; rfl
    | false => rw [hlive hreleases, if_neg Bool.false_ne_true, hu]

/-- A document has the version of the text that is in force. -/
theorem Step.versions_eq_some (hs : Sound maxSize s) (h : Step s x s') {version : Int}
    (hu : s.versions[u]? = some version ↔ ∃ text, InForce maxSize past ⟨u, version, text⟩) :
    s'.versions[u]? = some version ↔ ∃ text, InForce maxSize (x :: past) ⟨u, version, text⟩ := by
  simp only [inForce_cons]
  cases hrevises : x.revises maxSize u with
  | true =>
    obtain ⟨⟨u, version', text⟩, hrevision, rfl⟩ := exists_of_revises hrevises
    obtain ⟨p, _, htakes⟩ := h.takes hs hrevision
    rw [htakes.versions, if_pos rfl, hrevision]
    simp
  | false =>
    rw [(h.keeps hs hrevises).1]
    have hnone : ∀ text, x.revision? maxSize ≠ some ⟨u, version, text⟩ := by
      intro text htext
      simp [Happening.revises, htext] at hrevises
    cases hreleases : x.releases u <;> simp [hnone, hu]

/-! ### After any course -/

theorem Course.isSome_versions (h : Course (.start delay maxSize) past s) (u : String) :
    s.versions[u]?.isSome = s.registry.live[u]?.isSome := by
  induction h with
  | refl => simp [start]
  | step h hx ih => exact hx.isSome_versions (h.sound (sound_start delay maxSize)) ih

theorem Course.versions_eq_some (h : Course (.start delay maxSize) past s) (u : String)
    (version : Int) :
    s.versions[u]? = some version ↔ ∃ text, InForce maxSize past ⟨u, version, text⟩ := by
  induction h with
  | refl => simp [start, InForce]
  | step h hx ih => exact hx.versions_eq_some (h.sound (sound_start delay maxSize)) ih

/-- Whatever calls, publications and work have brought a server where it is, the documents that have
a version are those that have a worker of their own, each version is that of the last text that was
taken over, and a call that is refused leaves the server as it is. -/
theorem Course.versions_agree (h : Course (.start delay maxSize) past s) :
    (∀ u, u ∈ s.versions ↔ u ∈ s.registry.live) ∧
      (∀ u version, s.versions[u]? = some version ↔
        ∃ text, InForce maxSize past ⟨u, version, text⟩) ∧
      ∀ c : Call, c.isRefused maxSize → ∀ now, (s.call now c).server = s := by
  refine ⟨fun u => ?_, h.versions_eq_some, fun c hc now => ?_⟩
  · rw [Std.TreeMap.mem_iff_isSome_getElem?, Std.TreeMap.mem_iff_isSome_getElem?,
      h.isSome_versions]
  · rw [← (h.sound (sound_start delay maxSize)).maxSize_eq] at hc
    exact call_of_isRefused hc now

theorem versions_agree_after_closing :
    ∃ past s, Course (.start 10 4) past s ∧ "logo:a" ∉ s.registry.live ∧
      s.versions["logo:b"]? = some 2 ∧
      (s.call 9 (.changed "logo:b" 4 [⟨"bk", true⟩])).server = s := by
  have h : Course (.start 10 4) _ _ :=
    ((((Course.refl.step (.call 0 (.opened "logo:a" 1 "fd"))).step
      (.call 1 (.opened "logo:b" 1 "fd"))).step
      (.call 2 (.changed "logo:b" 2 [⟨"bk 1", false⟩]))).step
      (.call 3 (.changed "logo:b" 3 [⟨"bk 100", false⟩]))).step (.call 4 (.closed "logo:a"))
  obtain ⟨hlive, hversions, hrefused⟩ := Course.versions_agree h
  refine ⟨_, _, h, fun ha => absurd ((hlive "logo:a").mpr ha) (by decide +kernel),
    (hversions "logo:b" 2).mpr ⟨"bk 1", [_, _], _, [_, _], rfl, ?_, ?_⟩, hrefused _ rfl 9⟩
  · rfl
  · decide +kernel

end Server

end LogoServer
