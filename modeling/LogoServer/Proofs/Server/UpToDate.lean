import LogoServer.Proofs.Server.Publication
import Mathlib.Tactic

/-! Whether what is published is up to date. A publication is held against the version that the
document has, so it may be out of date where a version is used again. -/
namespace LogoServer.Server

/-- At each moment something holds of what happens and of what happened before. -/
def Always (P : Happening → List Happening → Prop) : List Happening → Prop
  | [] => True
  | x :: past => Always P past ∧ P x past

instance decidableAlways (P : Happening → List Happening → Prop)
    [∀ x past, Decidable (P x past)] : ∀ past, Decidable (Always P past)
  | [] => isTrue trivial
  | _ :: past => @instDecidableAnd _ _ (decidableAlways P past) inferInstance

/-- The text of a document that was taken over last. -/
def latest? (maxSize : Nat) (u : String) (past : List Happening) : Option Revision :=
  past.findSome? fun x => (x.revision? maxSize).filter (·.uri = u)

/-- Whatever is published about a document is about its last text. -/
def UpToDate (maxSize : Nat) : List Happening → Prop :=
  Always fun x past => ∀ u found version, .publishDiagnostics u found version ∈ x.sent →
    (latest? maxSize u past).map (fun rev => (Parsed.ofText rev.text).diagnostics) = some found

/-- The versions of a document increase, except that they may start again once it is released. -/
def VersionsIncrease (maxSize : Nat) : List Happening → Prop :=
  Always fun x past => ∀ rev ∈ x.revision? maxSize,
    ∀ y ∈ past.takeWhile fun y => !y.releases rev.uri,
      ∀ earlier ∈ y.revision? maxSize, earlier.uri = rev.uri → earlier.version < rev.version

/-- No text is taken over under the version of a publication of its document that is still to
come. -/
def Unambiguous (maxSize : Nat) : List Happening → Prop :=
  Always fun x past => ∀ rev ∈ x.revision? maxSize,
    ∀ p ∈ tasks past, p ∉ carriedOut past → p.uri = rev.uri → p.version ≠ rev.version

instance (maxSize : Nat) (past : List Happening) : Decidable (VersionsIncrease maxSize past) :=
  inferInstanceAs (Decidable (Always _ past))

instance (maxSize : Nat) (past : List Happening) : Decidable (Unambiguous maxSize past) :=
  inferInstanceAs (Decidable (Always _ past))

variable {s s' : Server} {maxSize delay : Nat} {past : List Happening} {x : Happening}
  {p : Publication} {rev : Revision} {u : String}

theorem latest?_cons_of_revises (h : x.revision? maxSize = some rev) :
    latest? maxSize rev.uri (x :: past) = some rev := by
  simp [latest?, h]

theorem latest?_cons (h : x.revises maxSize u = false) :
    latest? maxSize u (x :: past) = latest? maxSize u past := by
  unfold Happening.revises at h
  cases hrevision : x.revision? maxSize with
  | none => simp [latest?, hrevision]
  | some rev =>
    have hne : rev.uri ≠ u := by simpa [hrevision] using h
    simp [latest?, hrevision, hne]

/-- A publication still to come that has the version of its document is about the last text. -/
def LatestOnly (maxSize : Nat) (past : List Happening) (s : Server) : Prop :=
  ∀ p ∈ s.pending, s.versions[p.uri]? = some p.version →
    ∃ rev, latest? maxSize p.uri past = some rev ∧ About s p rev

theorem LatestOnly.keep (h : LatestOnly maxSize past s) (hs : Sound maxSize s) (hx : Step s x s')
    (hp : p ∈ s.pending) (hrevises : x.revises maxSize p.uri = false)
    (hversion : s'.versions[p.uri]? = some p.version) :
    ∃ rev, latest? maxSize p.uri (x :: past) = some rev ∧ About s' p rev := by
  have hversion' : s.versions[p.uri]? = some p.version := by
    rw [(hx.keeps hs hrevises).1] at hversion
    split_ifs at hversion
    exact hversion
  obtain ⟨rev, hlatest, habout⟩ := h p hp hversion'
  rw [latest?_cons hrevises]
  exact ⟨rev, hlatest, habout.goesOn (hx.cases hs).1⟩

theorem LatestOnly.step (h : LatestOnly maxSize past s) (hledger : Ledger maxSize past s)
    (hx : Step s x s') (hrevision : ∀ rev ∈ x.revision? maxSize,
      ∀ p ∈ tasks past, p ∉ carriedOut past → p.uri = rev.uri → p.version ≠ rev.version) :
    LatestOnly maxSize (x :: past) s' := by
  intro p hp hversion
  have hkeep := fun hp hrevises => h.keep hledger.sound hx (p := p) hp hrevises hversion
  obtain ⟨hgoesOn, ⟨c, rev, q, rfl, hc, htakes⟩ | ⟨c, rfl, hc, hleaves⟩ | ⟨q, hq, rfl, hleaves⟩ |
    ⟨n, rfl, hleaves⟩⟩ := hx.cases hledger.sound
  · rw [htakes.pending_eq] at hp
    rcases List.mem_append.mp hp with hp | hp
    · by_cases huri : p.uri = rev.uri
      · have hne := hrevision rev hc p (hledger.mem_tasks hp) (hledger.notMem_carriedOut hp) huri
        rw [htakes.versions, if_pos huri.symm] at hversion
        exact absurd (Option.some.inj hversion).symm hne
      · apply hkeep hp
        simpa [Happening.revises, Happening.revision?, hc] using Ne.symm huri
    · rw [List.mem_singleton.mp hp, htakes.uri_eq, latest?_cons_of_revises (x := .call c [q]) hc]
      exact ⟨rev, rfl, htakes.about⟩
  · rw [hleaves.pending_eq] at hp
    exact hkeep hp (by simp [Happening.revises, Happening.revision?, hc])
  · rw [hleaves.pending_eq] at hp
    exact hkeep (List.mem_of_mem_erase hp) rfl
  · rw [hleaves.pending_eq] at hp
    exact hkeep hp rfl

theorem Course.latestOnly (h : Course (.start delay maxSize) past s)
    (hpast : Unambiguous maxSize past) : LatestOnly maxSize past s := by
  induction h with
  | refl =>
    intro p hp
    cases hp
  | step h hx ih => exact (ih hpast.1).step h.ledger hx hpast.2

/-- As long as no text is taken over under the version of a publication that is still to come,
whatever is published about a document is about its last text. -/
theorem Course.upToDate (h : Course (.start delay maxSize) past s)
    (hpast : Unambiguous maxSize past) : UpToDate maxSize past := by
  induction h with
  | refl => exact trivial
  | @step past s s' x h hx ih =>
    refine ⟨ih hpast.1, fun u found version hsent => ?_⟩
    obtain ⟨p, hp, rfl, rfl, hversion⟩ := hx.exists_of_mem_sent hsent
    obtain ⟨rev, hlatest, habout⟩ := h.latestOnly hpast.1 p hp hversion
    rcases habout.sent (s.pending.erase p) with hnone | ⟨_, hone⟩
    · rw [Happening.sent, hnone] at hsent
      cases hsent
    · rw [Happening.sent, hone, List.mem_singleton, Revision.message] at hsent
      injection hsent with _ hfound _
      rw [hlatest, hfound]
      rfl

theorem upToDate_after_reopening :
    ∃ past s, Course (.start 10 100) past s ∧ UpToDate 100 past ∧
      past.flatMap Happening.sent = [.publishDiagnostics "logo:a" [] (some 1)] := by
  have h : Course (.start 10 100) _ _ :=
    ((((Course.refl.step (.call 0 (.opened "logo:a" 1 "fd"))).step
      (.call 1 (.closed "logo:a"))).step
      (.publish (p := ⟨"logo:a", 1, 0, 0⟩) (by decide +kernel))).step
      (.call 2 (.opened "logo:a" 1 "bk 1"))).step
      (.publish (p := ⟨"logo:a", 1, 0, 1⟩) (by decide +kernel))
  exact ⟨_, _, h, Course.upToDate h (by decide +kernel), by decide +kernel⟩

/-- A document that is opened again under the version of a publication still to come is told what
was wrong with its former text. -/
theorem stale_after_reopening :
    ¬ ∀ delay maxSize past s, Course (.start delay maxSize) past s →
      VersionsIncrease maxSize past → UpToDate maxSize past := by
  intro hall
  have h : Course (.start 10 100) _ _ :=
    (((Course.refl.step (.call 0 (.opened "logo:a" 1 "fd"))).step (.call 1 (.closed "logo:a"))).step
      (.call 2 (.opened "logo:a" 1 "bk 1"))).step
      (.publish (p := ⟨"logo:a", 1, 0, 0⟩) (by decide +kernel))
  have hstale := (hall 10 100 _ _ h (by decide +kernel)).2 "logo:a"
    (Parsed.ofText "fd").diagnostics (some 1) (by decide +kernel)
  revert hstale
  decide +kernel

end LogoServer.Server
