import LogoServer.Proofs.Registry.Eviction
import Mathlib.Tactic

/-! What a registry answers about a document, against a machine that knows this document alone and
forgets it on the dot. That documents are forgotten late, and in the order of their deadlines,
cannot be told from the answers. -/
namespace LogoServer.Registry

/-- What is asked of a registry, with what the clock reads meanwhile. Closing a document reads it
twice: to forget what is due, and to set the deadline. -/
inductive Operation where
  | acquire (now : Nat) (uri : String)
  | find (now : Nat) (uri : String)
  | close (now later : Nat) (uri : String)
  | cleanUp (now : Nat)
  | shutdownAll
  deriving DecidableEq, Repr

namespace Operation

def readings : Operation → List Nat
  | .acquire now _ | .find now _ | .cleanUp now => [now]
  | .close now later _ => [now, later]
  | .shutdownAll => []

/-- What the clock read last. -/
def clockAfter (clock : Nat) : Operation → Nat
  | .acquire now _ | .find now _ | .cleanUp now => now
  | .close _ later _ => later
  | .shutdownAll => clock

/-- The operation is about the document, or about all documents at once. -/
def concerns (u : String) : Operation → Bool
  | .acquire _ uri | .find _ uri | .close _ _ uri => uri = u
  | .cleanUp _ => false
  | .shutdownAll => true

variable {op : Operation} {clock : Nat}

/-- The readings of an operation come before those of later ones. -/
theorem pairwise_readings {readings : List Nat}
    (h : (clock :: (op.readings ++ readings)).Pairwise (· ≤ ·)) :
    (clock :: op.readings).Pairwise (· ≤ ·) ∧
      (op.clockAfter clock :: readings).Pairwise (· ≤ ·) := by
  cases op with
  | close now later uri =>
    simp only [Operation.readings, clockAfter, List.cons_append, List.nil_append,
      List.pairwise_cons, List.mem_cons, forall_eq_or_imp] at h ⊢
    tauto
  | shutdownAll => exact ⟨by simp [Operation.readings], h⟩
  | _ =>
    simp only [Operation.readings, clockAfter, List.cons_append, List.nil_append,
      List.pairwise_cons, List.mem_cons, forall_eq_or_imp] at h ⊢
    tauto

end Operation

/-- What is answered about a document. -/
inductive Answer where
  /-- No worker could be started. -/
  | failed (cause : String)
  | nobody
  /-- The worker that the document had before. -/
  | same
  /-- A worker that was not there before. -/
  | fresh
  /-- Someone else's worker, or an earlier one of the document. -/
  | other
  | parked
  /-- Only an open document can be closed. -/
  | notOpen
  deriving DecidableEq, Repr

/-- Tells a worker given to a document from the one it `had`, and from all that were `started`
before. -/
def Answer.ofWorker (started : Nat) (had : Option Nat) (n : Nat) : Answer :=
  if had = some n then .same else if started ≤ n then .fresh else .other

/-- A registry and the worker that each document was last given. -/
structure Watched where
  registry : Registry
  had : String → Option Nat := fun _ => none

namespace Watched

/-- A worker is given to a document. -/
def give (w : Watched) (uri : String) (n : Nat) (r : Registry) : (String × Answer) × Watched :=
  ((uri, .ofWorker w.registry.workers.size (w.had uri) n),
    { registry := r, had := Function.update w.had uri (some n) })

/-- Carries out an operation; answers about the document it is about, if it is about one. -/
def perform (w : Watched) : Operation → Option (String × Answer) × Watched
  | .acquire now uri =>
    match w.registry.acquire now uri with
    | (.ok n, r) => (some (w.give uri n r).1, (w.give uri n r).2)
    | (.error cause, r) => (some (uri, .failed cause), { w with registry := r })
  | .find now uri =>
    match w.registry.find now uri with
    | (some n, r) => (some (w.give uri n r).1, (w.give uri n r).2)
    | (none, r) => (some (uri, .nobody), { w with registry := r })
  | .close now later uri =>
    match (w.registry.cleanUp now).park later uri with
    | (true, r) => (some (uri, .parked), { w with registry := r })
    | (false, r) => (some (uri, .notOpen), { w with registry := r })
  | .cleanUp now => (none, { w with registry := w.registry.cleanUp now })
  | .shutdownAll => (none, { w with registry := w.registry.shutdownAll })

/-- What is answered about a document in the course of operations. -/
def answers (u : String) : Watched → List Operation → List Answer
  | _, [] => []
  | w, op :: ops =>
    (((w.perform op).1.filter (·.1 = u)).map Prod.snd).toList ++ answers u (w.perform op).2 ops

end Watched

/-- How things stand with one document. -/
inductive Standing where
  | absent | live
  | closed (due : Nat)
  deriving DecidableEq, Repr

namespace Standing

/-- A closed document is dropped the instant its deadline is reached. -/
def asOf (now : Nat) : Standing → Standing
  | .closed due => if due ≤ now then .absent else .closed due
  | standing => standing

/-- The machine for a document alone: operations are about this document or shut down all. -/
def perform (delay : Nat) (failure : Option String) (standing : Standing) :
    Operation → Option Answer × Standing
  | .acquire now _ =>
    match standing.asOf now, failure with
    | .absent, some cause => (some (.failed cause), .absent)
    | .absent, none => (some .fresh, .live)
    | .live, _ | .closed _, _ => (some .same, .live)
  | .find now _ =>
    match standing.asOf now with
    | .absent => (some .nobody, .absent)
    | .live => (some .same, .live)
    | .closed due => (some .same, .closed due)
  | .close now later _ =>
    match standing.asOf now with
    | .live => (some .parked, .closed (later + delay))
    | .absent => (some .notOpen, .absent)
    | .closed due => (some .notOpen, .closed due)
  | .cleanUp _ => (none, standing)
  | .shutdownAll => (none, .absent)

def answers (delay : Nat) (failure : Option String) : Standing → List Operation → List Answer
  | _, [] => []
  | standing, op :: ops =>
    (standing.perform delay failure op).1.toList ++
      answers delay failure (standing.perform delay failure op).2 ops

theorem asOf_asOf {now later : Nat} (h : now ≤ later) (standing : Standing) :
    (standing.asOf now).asOf later = standing.asOf later := by
  cases standing with
  | absent => rfl
  | live => rfl
  | closed due =>
    by_cases hdue : due ≤ now
    · have hdue' : due ≤ later := by omega
      simp [asOf, hdue, hdue']
    · simp [asOf, hdue]

/-- How things stand with a document, told by its entry in a registry. -/
def ofEntry : Option (Nat × Option Nat) → Standing
  | none => .absent
  | some (_, none) => .live
  | some (_, some due) => .closed due

end Standing

variable {r : Registry} {u : String} {stopped : Nat}

/-! ### Entries of a registry -/

/-- The entry is there for longer than now. -/
def lasting (now : Nat) (entry : Nat × Option Nat) : Bool :=
  entry.2.all (now < ·)

/-- Forgetting what is due takes away the entries whose deadline has come, and no others. -/
theorem assigned?_cleanUp (h : r.Consistent stopped) (now : Nat) (v : String) :
    (r.cleanUp now).assigned? v = (r.assigned? v).filter (lasting now) := by
  have hevicts := h.cleanUp_evicts now
  rw [assigned?, assigned?, hevicts.live, hevicts.parked]
  cases r.live[v]? with
  | some n => rfl
  | none =>
    cases r.parked[v]? with
    | none => rfl
    | some p => by_cases hdue : now < p.deadline.due <;> simp [Option.filter, lasting, hdue]

theorem ofEntry_filter_lasting (now : Nat) (entry : Option (Nat × Option Nat)) :
    Standing.ofEntry (entry.filter (lasting now)) = (Standing.ofEntry entry).asOf now := by
  match entry with
  | none => rfl
  | some (_, none) => rfl
  | some (n, some due) =>
    by_cases hdue : due ≤ now
    · simp [Option.filter, lasting, Standing.ofEntry, Standing.asOf, hdue, Nat.not_lt_of_le hdue]
    · simp [Option.filter, lasting, Standing.ofEntry, Standing.asOf, hdue, Nat.lt_of_not_le hdue]

theorem assigned?_launched (v : String) :
    (r.launched u).assigned? v =
      if u = v then some (r.workers.size, none) else r.assigned? v := by
  simp only [assigned?, launched, Std.TreeMap.getElem?_insert, Std.compare_eq_iff_eq]
  split_ifs <;> rfl

theorem assigned?_reopened (p : Parked) (v : String) :
    (r.reopened u p).assigned? v = if u = v then some (p.worker, none) else r.assigned? v := by
  simp only [assigned?, reopened, Std.TreeMap.getElem?_insert, Std.TreeMap.getElem?_erase,
    Std.compare_eq_iff_eq]
  split_ifs <;> rfl

theorem assigned?_closedAt (now n : Nat) (v : String) :
    (r.closedAt now u n).assigned? v =
      if u = v then some (n, some (now + r.delay)) else r.assigned? v := by
  simp only [assigned?, closedAt, Std.TreeMap.getElem?_insert, Std.TreeMap.getElem?_erase,
    Std.compare_eq_iff_eq]
  split_ifs <;> rfl

/-- A registry that an operation leaves, as far as it is not about single documents. -/
structure Succeeds (r r' : Registry) : Prop where
  consistent : ∃ stopped, r'.Consistent stopped
  delay : r'.delay = r.delay
  startFailure : r'.startFailure = r.startFailure
  size : r.workers.size ≤ r'.workers.size

theorem Succeeds.trans {r' r'' : Registry} (h : r.Succeeds r') (h' : r'.Succeeds r'') :
    r.Succeeds r'' :=
  ⟨h'.consistent, h'.delay.trans h.delay, h'.startFailure.trans h.startFailure,
    h.size.trans h'.size⟩

theorem cleanUp_succeeds (h : r.Consistent stopped) (now : Nat) : r.Succeeds (r.cleanUp now) := by
  have hevicts := h.cleanUp_evicts now
  have hclean := h.cleanUp now
  refine ⟨⟨stopped, hclean⟩, hevicts.delay, hevicts.startFailure, ?_⟩
  rw [hclean.size_eq, hevicts.created, h.size_eq]

/-- A document that is opened has the worker it had, or a new one if one can be started. -/
theorem acquire_entries (h : r.Consistent stopped) (now : Nat) (v : String) :
    ∃ r', r.Succeeds r' ∧
      ((∃ n, r.acquire now v = (.ok n, r') ∧
          (∀ u, r'.assigned? u =
            if v = u then some (n, none) else (r.cleanUp now).assigned? u) ∧
          ((∃ due, (r.cleanUp now).assigned? v = some (n, due)) ∨
            (r.cleanUp now).assigned? v = none ∧ r.startFailure v = none ∧
              r.workers.size ≤ n ∧ n < r'.workers.size)) ∨
        ∃ cause, r.acquire now v = (.error cause, r') ∧ r.startFailure v = some cause ∧
          r' = r.cleanUp now ∧ (r.cleanUp now).assigned? v = none) := by
  have hclean := cleanUp_succeeds h now
  have hconsistent : ∃ stopped, (r.acquire now v).2.Consistent stopped := ⟨stopped, h.acquire now v⟩
  rcases acquire_cases r now v with ⟨n, hlive, heq⟩ | ⟨p, hlive, hparked, heq⟩ |
    ⟨cause, hlive, hparked, hstart, heq⟩ | ⟨hlive, hparked, heq⟩
  · have hentry : (r.cleanUp now).assigned? v = some (n, none) := by simp [assigned?, hlive]
    refine ⟨_, hclean, .inl ⟨n, heq, fun u => ?_, .inl ⟨none, hentry⟩⟩⟩
    split_ifs with hvu
    · rw [← hvu, hentry]
    · rfl
  · have hentry : (r.cleanUp now).assigned? v = some (p.worker, some p.deadline.due) := by
      simp [assigned?, hlive, hparked]
    rw [heq] at hconsistent
    exact ⟨_, ⟨hconsistent, hclean.delay, hclean.startFailure, hclean.size⟩,
      .inl ⟨p.worker, heq, assigned?_reopened p, .inl ⟨_, hentry⟩⟩⟩
  · rw [hclean.startFailure] at hstart
    exact ⟨_, hclean, .inr ⟨cause, heq, hstart, rfl, by simp [assigned?, hlive, hparked]⟩⟩
  · have hstart : r.startFailure v = none := by
      cases hstart : r.startFailure v with
      | none => rfl
      | some cause => simp [acquire, hlive, hparked, hclean.startFailure, hstart] at heq
    have hsize : ((r.cleanUp now).launched v).workers.size = (r.cleanUp now).workers.size + 1 := by
      simp [launched]
    have hentry : (r.cleanUp now).assigned? v = none := by simp [assigned?, hlive, hparked]
    have hle := hclean.size
    rw [heq] at hconsistent
    refine ⟨(r.cleanUp now).launched v, ⟨hconsistent, hclean.delay, hclean.startFailure, by omega⟩,
      .inl ⟨_, heq, assigned?_launched, .inr ⟨hentry, hstart, hle, by omega⟩⟩⟩

/-- Only a document that is open can be closed. -/
theorem park_entries (h : r.Consistent stopped) (now later : Nat) (v : String) :
    ∃ r', r.Succeeds r' ∧
      ((∃ n, (r.cleanUp now).park later v = (true, r') ∧
          (r.cleanUp now).assigned? v = some (n, none) ∧
          ∀ u, r'.assigned? u =
            if v = u then some (n, some (later + r.delay)) else (r.cleanUp now).assigned? u) ∨
        (r.cleanUp now).park later v = (false, r') ∧ r' = r.cleanUp now ∧
          ∀ n, (r.cleanUp now).assigned? v ≠ some (n, none)) := by
  have hclean := cleanUp_succeeds h now
  rcases park_cases (r.cleanUp now) later v with ⟨hlive, heq⟩ | ⟨n, hlive, heq⟩
  · refine ⟨_, hclean, .inr ⟨heq, rfl, fun n hn => ?_⟩⟩
    have hopen := live_of_assigned? hn
    rw [hlive] at hopen
    cases hopen
  · have hconsistent := (h.cleanUp now).closedAt later hlive
    have hentry : (r.cleanUp now).assigned? v = some (n, none) := by simp [assigned?, hlive]
    refine ⟨_, ⟨⟨_, hconsistent⟩, hclean.delay, hclean.startFailure, hclean.size⟩,
      .inl ⟨n, heq, hentry, fun u => ?_⟩⟩
    rw [assigned?_closedAt, hclean.delay]

theorem shutdownAll_entries (h : r.Consistent stopped) :
    r.Succeeds r.shutdownAll ∧ ∀ u, r.shutdownAll.assigned? u = none := by
  refine ⟨⟨⟨_, h.shutdownAll⟩, ?_, ?_, ?_⟩, fun u => ?_⟩
  all_goals rw [shutdownAll_eq]
  · exact (size_dismissed _ _).ge
  · simp [assigned?]

/-! ### One document among others -/

namespace Watched

/-- The registry keeps to what the machine for a document says. -/
structure Tracks (start : Registry) (u : String) (clock : Nat) (w : Watched)
    (standing : Standing) : Prop where
  succeeds : start.Succeeds w.registry
  standing : (Standing.ofEntry (w.registry.assigned? u)).asOf clock = standing.asOf clock
  had : ∀ n due, w.registry.assigned? u = some (n, due) → w.had u = some n
  given : ∀ n, w.had u = some n → n < w.registry.workers.size

namespace Tracks

variable {start : Registry} {clock now : Nat} {w w' : Watched} {standing : Standing}

theorem ofEntry_cleanUp (h : w.Tracks start u clock standing) (hclock : clock ≤ now) :
    Standing.ofEntry ((w.registry.cleanUp now).assigned? u) = standing.asOf now := by
  obtain ⟨stopped, hconsistent⟩ := h.succeeds.consistent
  rw [assigned?_cleanUp hconsistent, ofEntry_filter_lasting, ← Standing.asOf_asOf hclock,
    h.standing, Standing.asOf_asOf hclock]

theorem had_of_cleanUp (h : w.Tracks start u clock standing) {n : Nat} {due : Option Nat}
    (hentry : (w.registry.cleanUp now).assigned? u = some (n, due)) : w.had u = some n := by
  obtain ⟨stopped, hconsistent⟩ := h.succeeds.consistent
  rw [assigned?_cleanUp hconsistent] at hentry
  exact h.had n due (Option.eq_some_of_filter_eq_some hentry)

/-- An operation that is not about the document does no more to it than forget it when due. -/
theorem keep (h : w.Tracks start u clock standing) (hclock : clock ≤ now)
    (hsucceeds : w.registry.Succeeds w'.registry)
    (hentry : w'.registry.assigned? u = (w.registry.cleanUp now).assigned? u)
    (hhad : w'.had u = w.had u) : w'.Tracks start u now standing := by
  refine ⟨h.succeeds.trans hsucceeds, ?_, fun n due hn => ?_, fun n hn => ?_⟩
  · rw [hentry, h.ofEntry_cleanUp hclock, Standing.asOf_asOf le_rfl]
  · rw [hentry] at hn
    rw [hhad]
    exact h.had_of_cleanUp hn
  · rw [hhad] at hn
    have hlt := h.given n hn
    have hle := hsucceeds.size
    omega

theorem later (h : w.Tracks start u clock standing) (hclock : clock ≤ now) :
    w.Tracks start u now standing := by
  refine ⟨h.succeeds, ?_, h.had, h.given⟩
  rw [← Standing.asOf_asOf hclock, h.standing, Standing.asOf_asOf hclock]

/-- Registry and machine drop the document at the same time. -/
theorem cleanUp (h : w.Tracks start u clock standing) (hclock : clock ≤ now) :
    Tracks start u now { w with registry := w.registry.cleanUp now } (standing.asOf now) := by
  obtain ⟨stopped, hconsistent⟩ := h.succeeds.consistent
  have hkeep : Tracks start u now { w with registry := w.registry.cleanUp now } standing :=
    h.keep hclock (cleanUp_succeeds hconsistent now) rfl rfl
  refine ⟨hkeep.succeeds, ?_, hkeep.had, hkeep.given⟩
  rw [hkeep.standing, Standing.asOf_asOf le_rfl]

/-- The document has the entry that an operation left. -/
theorem own {n : Nat} (due : Option Nat) (hsucceeds : start.Succeeds w.registry)
    (hentry : w.registry.assigned? u = some (n, due)) (hhad : w.had u = some n)
    (hlt : n < w.registry.workers.size) :
    w.Tracks start u now (Standing.ofEntry (some (n, due))) := by
  refine ⟨hsucceeds, by rw [hentry], fun m due' hm => ?_, fun m hm => ?_⟩
  · rw [hentry] at hm
    cases hm
    exact hhad
  · rw [hhad] at hm
    cases hm
    exact hlt

theorem acquire_other (h : w.Tracks start u clock standing) (hclock : clock ≤ now) {v : String}
    (huv : v ≠ u) :
    (w.perform (.acquire now v)).1.filter (·.1 = u) = none ∧
      (w.perform (.acquire now v)).2.Tracks start u now standing := by
  obtain ⟨stopped, hconsistent⟩ := h.succeeds.consistent
  obtain ⟨r', hsucceeds, ⟨n, heq, hentries, _⟩ | ⟨cause, heq, _, rfl, _⟩⟩ :=
    acquire_entries hconsistent now v
  · simp only [perform, heq]
    refine ⟨by simp [give, huv], h.keep hclock hsucceeds ?_ (Function.update_of_ne huv.symm _ _)⟩
    exact (hentries u).trans (if_neg huv)
  · simp only [perform, heq]
    exact ⟨by simp [huv], h.keep hclock hsucceeds rfl rfl⟩

theorem acquire_own (h : w.Tracks start u clock standing) (hclock : clock ≤ now) :
    (w.perform (.acquire now u)).1 =
        (standing.perform start.delay (start.startFailure u) (.acquire now u)).1.map (u, ·) ∧
      (w.perform (.acquire now u)).2.Tracks start u now
        (standing.perform start.delay (start.startFailure u) (.acquire now u)).2 := by
  obtain ⟨stopped, hconsistent⟩ := h.succeeds.consistent
  have hstanding := h.ofEntry_cleanUp hclock
  obtain ⟨r', hsucceeds, ⟨n, heq, hentries, hfound⟩ | ⟨cause, heq, hfailure, rfl, hentry⟩⟩ :=
    acquire_entries hconsistent now u
  · have hentry : r'.assigned? u = some (n, none) := (hentries u).trans (if_pos rfl)
    have hown : n < r'.workers.size → (w.give u n r').2.Tracks start u now .live := fun hlt =>
      own none (h.succeeds.trans hsucceeds) hentry (Function.update_self _ _ _) hlt
    simp only [perform, heq, Standing.perform]
    rcases hfound with ⟨due, hbefore⟩ | ⟨hbefore, hfailure, hnew, hlt⟩
    · have hsame := h.had_of_cleanUp hbefore
      have hlt : n < r'.workers.size := lt_of_lt_of_le (h.given n hsame) hsucceeds.size
      rw [← hstanding, hbefore]
      cases due with
      | none => exact ⟨by simp [give, Answer.ofWorker, hsame, Standing.ofEntry], hown hlt⟩
      | some due => exact ⟨by simp [give, Answer.ofWorker, hsame, Standing.ofEntry], hown hlt⟩
    · have hfresh : w.had u ≠ some n := by
        intro hsame
        have hgiven := h.given n hsame
        omega
      rw [← hstanding, hbefore, ← h.succeeds.startFailure, hfailure]
      exact ⟨by simp [give, Answer.ofWorker, hfresh, hnew, Standing.ofEntry], hown hlt⟩
  · have hkeep := h.cleanUp hclock
    simp only [perform, heq, Standing.perform]
    rw [← hstanding, hentry] at hkeep ⊢
    rw [← h.succeeds.startFailure, hfailure]
    exact ⟨rfl, hkeep⟩

theorem find_other (h : w.Tracks start u clock standing) (hclock : clock ≤ now) {v : String}
    (huv : v ≠ u) :
    (w.perform (.find now v)).1.filter (·.1 = u) = none ∧
      (w.perform (.find now v)).2.Tracks start u now standing := by
  obtain ⟨stopped, hconsistent⟩ := h.succeeds.consistent
  have hsucceeds := cleanUp_succeeds hconsistent now
  simp only [perform, find_eq]
  cases (w.registry.cleanUp now).assigned? v with
  | none => exact ⟨by simp [huv], h.keep hclock hsucceeds rfl rfl⟩
  | some entry =>
    exact ⟨by simp [give, huv], h.keep hclock hsucceeds rfl (Function.update_of_ne huv.symm _ _)⟩

theorem find_own (h : w.Tracks start u clock standing) (hclock : clock ≤ now) :
    (w.perform (.find now u)).1 =
        (standing.perform start.delay (start.startFailure u) (.find now u)).1.map (u, ·) ∧
      (w.perform (.find now u)).2.Tracks start u now
        (standing.perform start.delay (start.startFailure u) (.find now u)).2 := by
  obtain ⟨stopped, hconsistent⟩ := h.succeeds.consistent
  have hsucceeds := cleanUp_succeeds hconsistent now
  have hstanding := h.ofEntry_cleanUp hclock
  simp only [perform, find_eq, Standing.perform]
  cases hentry : (w.registry.cleanUp now).assigned? u with
  | none =>
    have hkeep := h.cleanUp hclock
    rw [← hstanding, hentry] at hkeep ⊢
    exact ⟨rfl, hkeep⟩
  | some entry =>
    obtain ⟨n, due⟩ := entry
    have hsame := h.had_of_cleanUp hentry
    have hlt : n < (w.registry.cleanUp now).workers.size :=
      lt_of_lt_of_le (h.given n hsame) hsucceeds.size
    have hown : (w.give u n (w.registry.cleanUp now)).2.Tracks start u now
        (Standing.ofEntry (some (n, due))) :=
      own due (h.succeeds.trans hsucceeds) hentry (Function.update_self _ _ _) hlt
    rw [← hstanding, hentry]
    cases due with
    | none => exact ⟨by simp [give, Answer.ofWorker, hsame, Standing.ofEntry], hown⟩
    | some due => exact ⟨by simp [give, Answer.ofWorker, hsame, Standing.ofEntry], hown⟩

theorem close_other (h : w.Tracks start u clock standing) {later : Nat} (hclock : clock ≤ now)
    (hlater : now ≤ later) {v : String} (huv : v ≠ u) :
    (w.perform (.close now later v)).1.filter (·.1 = u) = none ∧
      (w.perform (.close now later v)).2.Tracks start u later standing := by
  obtain ⟨stopped, hconsistent⟩ := h.succeeds.consistent
  obtain ⟨r', hsucceeds, ⟨n, heq, _, hentries⟩ | ⟨heq, rfl, _⟩⟩ :=
    park_entries hconsistent now later v
  · have hkeep : Tracks start u now { w with registry := r' } standing :=
      h.keep hclock hsucceeds ((hentries u).trans (if_neg huv)) rfl
    simp only [perform, heq]
    exact ⟨by simp [huv], hkeep.later hlater⟩
  · have hkeep : Tracks start u now { w with registry := w.registry.cleanUp now } standing :=
      h.keep hclock hsucceeds rfl rfl
    simp only [perform, heq]
    exact ⟨by simp [huv], hkeep.later hlater⟩

theorem close_own (h : w.Tracks start u clock standing) {later : Nat} (hclock : clock ≤ now)
    (hlater : now ≤ later) :
    (w.perform (.close now later u)).1 =
        (standing.perform start.delay (start.startFailure u) (.close now later u)).1.map (u, ·) ∧
      (w.perform (.close now later u)).2.Tracks start u later
        (standing.perform start.delay (start.startFailure u) (.close now later u)).2 := by
  obtain ⟨stopped, hconsistent⟩ := h.succeeds.consistent
  have hstanding := h.ofEntry_cleanUp hclock
  obtain ⟨r', hsucceeds, ⟨n, heq, hopen, hentries⟩ | ⟨heq, rfl, hclosed⟩⟩ :=
    park_entries hconsistent now later u
  · have hsame := h.had_of_cleanUp hopen
    have hentry : r'.assigned? u = some (n, some (later + start.delay)) := by
      rw [hentries u, if_pos rfl, h.succeeds.delay]
    have hown : Tracks start u later { w with registry := r' } (.closed (later + start.delay)) :=
      own (some _) (h.succeeds.trans hsucceeds) hentry hsame
        (lt_of_lt_of_le (h.given n hsame) hsucceeds.size)
    simp only [perform, heq, Standing.perform]
    rw [← hstanding, hopen]
    exact ⟨rfl, hown⟩
  · have hkeep := (h.cleanUp hclock).later hlater
    simp only [perform, heq, Standing.perform]
    rw [← hstanding] at hkeep ⊢
    match hentry : (w.registry.cleanUp now).assigned? u with
    | none =>
      rw [hentry] at hkeep
      exact ⟨rfl, hkeep⟩
    | some (n, none) => exact absurd hentry (hclosed n)
    | some (n, some due) =>
      rw [hentry] at hkeep
      exact ⟨rfl, hkeep⟩

theorem shutdownAll (h : w.Tracks start u clock standing) :
    Tracks start u clock { w with registry := w.registry.shutdownAll } .absent := by
  obtain ⟨stopped, hconsistent⟩ := h.succeeds.consistent
  obtain ⟨hsucceeds, hnone⟩ := shutdownAll_entries hconsistent
  refine ⟨h.succeeds.trans hsucceeds, ?_, ?_, fun n hn => ?_⟩
  · rw [hnone u]
    rfl
  · intro n due hn
    rw [hnone u] at hn
    cases hn
  · exact lt_of_lt_of_le (h.given n hn) hsucceeds.size

/-- An operation that is not about the document answers nothing about it. -/
theorem perform_other (h : w.Tracks start u clock standing) {op : Operation}
    (hother : op.concerns u = false) (hclock : (clock :: op.readings).Pairwise (· ≤ ·)) :
    (w.perform op).1.filter (·.1 = u) = none ∧
      (w.perform op).2.Tracks start u (op.clockAfter clock) standing := by
  cases op with
  | acquire now v =>
    have hnow : clock ≤ now := by simpa [Operation.readings] using hclock
    have huv : v ≠ u := by simpa [Operation.concerns] using hother
    exact h.acquire_other hnow huv
  | find now v =>
    have hnow : clock ≤ now := by simpa [Operation.readings] using hclock
    have huv : v ≠ u := by simpa [Operation.concerns] using hother
    exact h.find_other hnow huv
  | close now later v =>
    obtain ⟨⟨hnow, _⟩, hlater⟩ : (clock ≤ now ∧ clock ≤ later) ∧ now ≤ later := by
      simpa [Operation.readings] using hclock
    have huv : v ≠ u := by simpa [Operation.concerns] using hother
    exact h.close_other hnow hlater huv
  | cleanUp now =>
    have hnow : clock ≤ now := by simpa [Operation.readings] using hclock
    obtain ⟨stopped, hconsistent⟩ := h.succeeds.consistent
    exact ⟨rfl, h.keep hnow (cleanUp_succeeds hconsistent now) rfl rfl⟩
  | shutdownAll => cases hother

/-- An operation that is about the document answers what the machine answers. -/
theorem perform_own (h : w.Tracks start u clock standing) {op : Operation}
    (hown : op.concerns u = true) (hclock : (clock :: op.readings).Pairwise (· ≤ ·)) :
    (w.perform op).1 = (standing.perform start.delay (start.startFailure u) op).1.map (u, ·) ∧
      (w.perform op).2.Tracks start u (op.clockAfter clock)
        (standing.perform start.delay (start.startFailure u) op).2 := by
  cases op with
  | acquire now v =>
    obtain rfl : v = u := by simpa [Operation.concerns] using hown
    exact h.acquire_own (by simpa [Operation.readings] using hclock)
  | find now v =>
    obtain rfl : v = u := by simpa [Operation.concerns] using hown
    exact h.find_own (by simpa [Operation.readings] using hclock)
  | close now later v =>
    obtain rfl : v = u := by simpa [Operation.concerns] using hown
    obtain ⟨⟨hnow, _⟩, hlater⟩ : (clock ≤ now ∧ clock ≤ later) ∧ now ≤ later := by
      simpa [Operation.readings] using hclock
    exact h.close_own hnow hlater
  | cleanUp now => cases hown
  | shutdownAll => exact ⟨rfl, h.shutdownAll⟩

/-- Along a run the machine needs to be told of no operation that is not about its document. -/
theorem answers_eq (h : w.Tracks start u clock standing) {ops : List Operation}
    (hclock : (clock :: ops.flatMap Operation.readings).Pairwise (· ≤ ·)) :
    w.answers u ops =
      standing.answers start.delay (start.startFailure u) (ops.filter (Operation.concerns u)) := by
  induction ops generalizing w clock standing with
  | nil => rfl
  | cons op ops ih =>
    rw [List.flatMap_cons] at hclock
    obtain ⟨hop, hops⟩ := Operation.pairwise_readings hclock
    rw [Watched.answers]
    cases hconcerns : op.concerns u with
    | false =>
      obtain ⟨hnone, htracks⟩ := h.perform_other hconcerns hop
      rw [hnone, ih htracks hops, List.filter_cons_of_neg (by simp [hconcerns])]
      rfl
    | true =>
      obtain ⟨hsame, htracks⟩ := h.perform_own hconcerns hop
      rw [hsame, ih htracks hops, List.filter_cons_of_pos hconcerns, Standing.answers]
      congr 2
      cases (standing.perform start.delay (start.startFailure u) op).1 <;> simp

end Tracks

end Watched

theorem tracks_new (delay : Nat) (startFailure : String → Option String) (u : String) :
    Watched.Tracks { delay, startFailure } u 0 { registry := { delay, startFailure } } .absent := by
  have hconsistent : ({ delay, startFailure } : Registry).Consistent 0 :=
    (Reachable.startFailure .new startFailure).consistent
  exact ⟨⟨⟨0, hconsistent⟩, rfl, rfl, le_rfl⟩, by simp [assigned?, Standing.ofEntry],
    by simp [assigned?], by simp⟩

/-- Whatever is asked of a new registry while the clock does not go back, about each document it
answers what the machine for this document alone answers. So operations on other documents, and
forgetting what is due more or less often, make no difference to the answers. -/
theorem answers_as_if_alone (delay : Nat) (startFailure : String → Option String) (u : String)
    {ops : List Operation} (hclock : (ops.flatMap Operation.readings).Pairwise (· ≤ ·)) :
    Watched.answers u { registry := { delay, startFailure } } ops =
        Standing.answers delay (startFailure u) .absent (ops.filter (Operation.concerns u)) ∧
      ∀ ops' : List Operation, (ops'.flatMap Operation.readings).Pairwise (· ≤ ·) →
        ops'.filter (Operation.concerns u) = ops.filter (Operation.concerns u) →
        Watched.answers u { registry := { delay, startFailure } } ops' =
          Watched.answers u { registry := { delay, startFailure } } ops := by
  have halone : ∀ ops : List Operation, (ops.flatMap Operation.readings).Pairwise (· ≤ ·) →
      Watched.answers u { registry := { delay, startFailure } } ops =
        Standing.answers delay (startFailure u) .absent (ops.filter (Operation.concerns u)) :=
    fun ops hops =>
      (tracks_new delay startFailure u).answers_eq (List.pairwise_cons.mpr ⟨by simp, hops⟩)
  refine ⟨halone ops hclock, fun ops' hops' hsame => ?_⟩
  rw [halone ops hclock, halone ops' hops', hsame]

theorem answers_around_deadline :
    Watched.answers "logo:a" { registry := { delay := 10 } }
      [.acquire 0 "logo:a", .acquire 1 "logo:b", .close 1 2 "logo:b", .close 2 3 "logo:a",
        .close 5 5 "logo:a", .find 12 "logo:a", .cleanUp 12, .find 13 "logo:a",
        .acquire 13 "logo:a", .shutdownAll, .close 14 14 "logo:a"] =
      [.fresh, .parked, .notOpen, .same, .nobody, .fresh, .notOpen] := by
  rw [(answers_as_if_alone 10 (fun _ => none) "logo:a" (by decide)).1]
  decide

end LogoServer.Registry
