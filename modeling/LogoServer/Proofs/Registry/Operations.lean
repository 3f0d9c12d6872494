import LogoServer.Proofs.Registry.Holding
import Mathlib.Tactic

/-! How opening, closing, asking and shutting down change what a registry holds. -/
namespace LogoServer.Registry

variable {r : Registry} {u v : String} {n : Nat} {due : Option Nat}

/-- A task handed in changes the document of its worker and no other. -/
theorem submit_spec (hr : r.Valid) {w : Worker} (hu : r.assigned? u = some (n, due))
    (hw : r.workers[n]? = some w) (request : Request) :
    ∃ w', r.submit n u request = .ok (w.accepted, r.update n fun _ => w') ∧ w'.Serving ∧
      w'.foreseen = Worker.after w.number w.foreseen ⟨w.accepted, request⟩ ∧
      (r.update n fun _ => w').Valid ∧
      ∀ v, (r.update n fun _ => w').held v =
        if u = v then some ⟨(request.perform w.number w.foreseen.1).2, due⟩ else r.held v := by
  obtain ⟨_, hw', hserving, huri⟩ := hr.serving u n due hu
  rw [hw] at hw'
  cases hw'
  obtain ⟨w', hsubmit, hserving', hforeseen⟩ := Worker.submit_spec hserving request
  have huri' : w'.uri = w.uri := by
    rw [← Worker.uri_foreseen, hforeseen, ← Worker.uri_foreseen w]
    exact Request.uri_perform w.number w.foreseen.1 request
  obtain ⟨hvalid, hheld⟩ := update_spec hr n (fun _ => w') fun _ _ _ _ hw₁ _ => by
    rw [hw] at hw₁
    cases hw₁
    exact ⟨hserving', huri'⟩
  refine ⟨w', ?_, hserving', hforeseen, hvalid, fun v => ?_⟩
  · simp [submit, hw, hsubmit]
  · rw [hheld]
    split_ifs with huv
    · subst huv
      simp [hu, hw, hforeseen, Worker.after]
    · rw [held]
      cases hv : r.assigned? v with
      | none => rfl
      | some e =>
        have hne : n ≠ e.1 := hr.worker_ne hu hv huv
        simp [hne]

theorem submit_eq_ok {r' : Registry} {request : Request} {ticket : Nat}
    (h : r.submit n u request = .ok (ticket, r')) :
    ∃ w w', r.workers[n]? = some w ∧ w.submit request = .ok (ticket, w') ∧
      r' = r.update n fun _ => w' := by
  unfold submit at h
  cases hn : r.workers[n]? with
  | none => simp [hn] at h
  | some w =>
    cases hsubmit : w.submit request with
    | error cause => simp [hn, hsubmit, bind, Except.bind] at h
    | ok given =>
      obtain ⟨ticket', w'⟩ := given
      have heq : (ticket', r.update n fun _ => w') = (ticket, r') := by
        simpa [hn, hsubmit, bind, Except.bind, pure, Except.pure] using h
      cases heq
      exact ⟨w, w', rfl, hsubmit, rfl⟩

/-- Waiting for a worker changes nothing that is held. -/
theorem await_frame (hr : r.Valid) (n : Nat) (u : String) (ticket : Nat) :
    (r.await n u ticket).2.Valid ∧ (r.await n u ticket).2.delay = r.delay ∧
      ∀ v, (r.await n u ticket).2.held v = r.held v := by
  unfold await
  cases hn : r.workers[n]? with
  | none => exact ⟨hr, rfl, fun _ => rfl⟩
  | some w =>
    obtain ⟨hvalid, hheld⟩ := update_frame hr n (fun _ => w.settle) fun w₁ hw₁ hserving => by
      rw [hn] at hw₁
      cases hw₁
      exact ⟨hserving.settle, Worker.foreseen_settle hserving⟩
    exact ⟨hvalid, rfl, hheld⟩

theorem find_eq (r : Registry) (now : Nat) (u : String) :
    r.find now u = (((r.cleanUp now).assigned? u).map Prod.fst, r.cleanUp now) := by
  cases hlive : (r.cleanUp now).live[u]? with
  | some n => simp [find, assigned?, hlive]
  | none =>
    cases hparked : (r.cleanUp now).parked[u]? <;> simp [find, assigned?, hlive, hparked]

def launched (r : Registry) (u : String) : Registry :=
  { r with
    workers := r.workers.push (.start r.workers.size u)
    live := r.live.insert u r.workers.size
    created := r.created + 1 }

/-- A closed document gets back its worker. -/
def reopened (r : Registry) (u : String) (p : Parked) : Registry :=
  { r with
    parked := r.parked.erase u
    deadlines := r.deadlines.filter fun d => d.1 ≠ p.deadline
    live := r.live.insert u p.worker
    recycled := r.recycled + 1 }

def closedAt (r : Registry) (now : Nat) (u : String) (n : Nat) : Registry :=
  { r with
    live := r.live.erase u
    parked := r.parked.insert u ⟨n, ⟨now + r.delay, r.nextSequence⟩⟩
    deadlines := schedule ⟨now + r.delay, r.nextSequence⟩ u r.deadlines
    nextSequence := r.nextSequence + 1 }

/-- What opening a document can come to, once what is due is forgotten. -/
theorem acquire_cases (r : Registry) (now : Nat) (u : String) :
    (∃ n, (r.cleanUp now).live[u]? = some n ∧ r.acquire now u = (.ok n, r.cleanUp now)) ∨
    (∃ p, (r.cleanUp now).live[u]? = none ∧ (r.cleanUp now).parked[u]? = some p ∧
      r.acquire now u = (.ok p.worker, (r.cleanUp now).reopened u p)) ∨
    (∃ cause, (r.cleanUp now).live[u]? = none ∧ (r.cleanUp now).parked[u]? = none ∧
      (r.cleanUp now).startFailure u = some cause ∧
      r.acquire now u = (.error cause, r.cleanUp now)) ∨
    ((r.cleanUp now).live[u]? = none ∧ (r.cleanUp now).parked[u]? = none ∧
      r.acquire now u = (.ok (r.cleanUp now).workers.size, (r.cleanUp now).launched u)) := by
  unfold acquire
  cases hlive : (r.cleanUp now).live[u]? with
  | some n => exact .inl ⟨n, rfl, by simp [hlive]⟩
  | none =>
    cases hparked : (r.cleanUp now).parked[u]? with
    | some p => exact .inr (.inl ⟨p, rfl, rfl, by simp [hlive, hparked, reopened]⟩)
    | none =>
      cases hstart : (r.cleanUp now).startFailure u with
      | some cause =>
        exact .inr (.inr (.inl ⟨cause, rfl, rfl, rfl, by simp [hlive, hparked, hstart]⟩))
      | none =>
        exact .inr (.inr (.inr ⟨rfl, rfl, by simp [hlive, hparked, hstart, launched]⟩))

theorem park_cases (r : Registry) (now : Nat) (u : String) :
    (r.live[u]? = none ∧ r.park now u = (false, r)) ∨
    ∃ n, r.live[u]? = some n ∧ r.park now u = (true, r.closedAt now u n) := by
  unfold park
  cases hlive : r.live[u]? with
  | none => exact .inl ⟨rfl, rfl⟩
  | some n => exact .inr ⟨n, rfl, rfl⟩

theorem close_cases (r : Registry) (now : Nat) (u : String) :
    ((r.cleanUp now).live[u]? = none ∧ r.close now u = (false, r.cleanUp now)) ∨
    ∃ n, (r.cleanUp now).live[u]? = some n ∧
      r.close now u = (true, (r.cleanUp now).closedAt now u n) :=
  park_cases (r.cleanUp now) now u

theorem launched_spec (hr : r.Valid) (hparked : r.parked[u]? = none) :
    (r.launched u).Valid ∧ (r.launched u).assigned? u = some (r.workers.size, none) ∧
      ∀ v, u ≠ v → (r.launched u).held v = r.held v := by
  have hlive : ∀ v : String, (r.launched u).live[v]? =
      if u = v then some r.workers.size else r.live[v]? := by
    intro v
    simp [launched, Std.TreeMap.getElem?_insert]
  have hassigned : (r.launched u).assigned? u = some (r.workers.size, none) := by
    rw [assigned?, hlive, if_pos rfl]
  have hworkers : ∀ v n due, u ≠ v → r.assigned? v = some (n, due) →
      (r.launched u).workers[n]? = r.workers[n]? := by
    intro v n due _ hv
    obtain ⟨w, hw, _, _⟩ := hr.serving v n due hv
    have hlt : n < r.workers.size := (Array.getElem?_eq_some_iff.mp hw).1
    rw [launched, Array.getElem?_push, if_neg (by omega)]
  have hserving : ∀ n due, (r.launched u).assigned? u = some (n, due) →
      ∃ w, (r.launched u).workers[n]? = some w ∧ w.Serving ∧ w.uri = u := by
    rw [hassigned]
    rintro n due ⟨⟩
    exact ⟨.start r.workers.size u, by simp [launched], Worker.serving_start _ u, rfl⟩
  have hframe := frame hr (r.launched u) u rfl (fun v huv => by rw [hlive, if_neg huv])
    (fun _ _ => rfl) hworkers (.inr hparked) hr.agenda hserving
  exact ⟨hframe.1, hassigned, hframe.2⟩

theorem reopened_spec (hr : r.Valid) {p : Parked} (hp : r.parked[u]? = some p) :
    (r.reopened u p).Valid ∧ (r.reopened u p).assigned? u = some (p.worker, none) ∧
      ∀ v, u ≠ v → (r.reopened u p).held v = r.held v := by
  have hlive : ∀ v : String, (r.reopened u p).live[v]? =
      if u = v then some p.worker else r.live[v]? := by
    intro v
    simp [reopened, Std.TreeMap.getElem?_insert]
  have hparked : ∀ v : String, (r.reopened u p).parked[v]? =
      if u = v then none else r.parked[v]? := by
    intro v
    simp [reopened, Std.TreeMap.getElem?_erase]
  have hassigned : (r.reopened u p).assigned? u = some (p.worker, none) := by
    rw [assigned?, hlive, if_pos rfl]
  have hagenda := hr.agenda.drop List.filter_sublist (hr.agenda.mem_filter_iff hp)
  simp only [← hparked] at hagenda
  have hserving : ∀ n due, (r.reopened u p).assigned? u = some (n, due) →
      ∃ w, r.workers[n]? = some w ∧ w.Serving ∧ w.uri = u := by
    rw [hassigned]
    rintro n due ⟨⟩
    exact hr.serving u _ _ (assigned?_of_parked hr hp)
  have hframe := frame hr (r.reopened u p) u rfl (fun v huv => by rw [hlive, if_neg huv])
    (fun v huv => by rw [hparked, if_neg huv]) (fun _ _ _ _ _ => rfl)
    (.inr (by rw [hparked, if_pos rfl])) hagenda hserving
  exact ⟨hframe.1, hassigned, hframe.2⟩

theorem closedAt_spec (hr : r.Valid) (now : Nat) (hn : r.live[u]? = some n) :
    (r.closedAt now u n).Valid ∧
      (r.closedAt now u n).assigned? u = some (n, some (now + r.delay)) ∧
      ∀ v, u ≠ v → (r.closedAt now u n).held v = r.held v := by
  have hlive : ∀ v : String, (r.closedAt now u n).live[v]? =
      if u = v then none else r.live[v]? := by
    intro v
    simp [closedAt, Std.TreeMap.getElem?_erase]
  have hparked : ∀ v : String, (r.closedAt now u n).parked[v]? =
      if u = v then some ⟨n, ⟨now + r.delay, r.nextSequence⟩⟩ else r.parked[v]? := by
    intro v
    simp [closedAt, Std.TreeMap.getElem?_insert]
  have hassigned : (r.closedAt now u n).assigned? u = some (n, some (now + r.delay)) := by
    rw [assigned?, hlive, hparked, if_pos rfl, if_pos rfl]
    rfl
  have hopen : r.parked[u]? = none := (hr.apart u).resolve_left (by simp [hn])
  have hagenda := hr.agenda.add hopen n (now + r.delay)
  simp only [← hparked] at hagenda
  have hserving : ∀ m due, (r.closedAt now u n).assigned? u = some (m, due) →
      ∃ w, r.workers[m]? = some w ∧ w.Serving ∧ w.uri = u := by
    rw [hassigned]
    rintro m due ⟨⟩
    exact hr.serving u n none (by simp [assigned?, hn])
  have hframe := frame hr (r.closedAt now u n) u rfl (fun v huv => by rw [hlive, if_neg huv])
    (fun v huv => by rw [hparked, if_neg huv]) (fun _ _ _ _ _ => rfl)
    (.inl (by rw [hlive, if_pos rfl])) hagenda hserving
  exact ⟨hframe.1, hassigned, hframe.2⟩

/-- A document that is opened has a worker, and what is due is forgotten. -/
theorem acquire_spec (hr : r.Valid) (now : Nat) (u : String) :
    ∃ n r', r.acquire now u = (.ok n, r') ∧ r'.Valid ∧ r'.delay = r.delay ∧
      r'.assigned? u = some (n, none) ∧
      ∀ v, u ≠ v → r'.held v = (r.held v).filter (Holding.lasts now) := by
  obtain ⟨hvalid, hdelay, hheld⟩ := cleanUp_spec hr now
  generalize hclean : r.cleanUp now = r₁ at hvalid hdelay hheld
  rcases assigned?_cases hvalid u with ⟨hu, hlive, hparked⟩ | ⟨n, w, hu, hlive, hw, _⟩ |
    ⟨p, w, hu, hlive, hparked, hw, hserving, huri⟩
  · obtain ⟨hvalid', hassigned, hheld'⟩ := launched_spec hvalid hparked
    refine ⟨_, _, ?_, hvalid', hdelay, hassigned, fun v huv => (hheld' v huv).trans (hheld v)⟩
    simp [acquire, hclean, hlive, hparked, hvalid.starts, launched]
  · refine ⟨n, r₁, ?_, hvalid, hdelay, hu, fun v _ => hheld v⟩
    simp [acquire, hclean, hlive]
  · obtain ⟨hvalid', hassigned, hheld'⟩ := reopened_spec hvalid hparked
    refine ⟨_, _, ?_, hvalid', hdelay, hassigned, fun v huv => (hheld' v huv).trans (hheld v)⟩
    simp [acquire, hclean, hlive, hparked, reopened]

/-- Once closed, a document keeps its deadline. -/
def parkUntil (due : Nat) (h : Holding) : Holding :=
  { h with due := some (h.due.getD due) }

/-- Closing a document that is forgotten does not bring it back. -/
theorem filter_lasts_parkUntil {now later : Nat} (hle : now ≤ later) (due : Nat)
    (held : Option Holding) :
    ((held.filter (Holding.lasts now)).map (parkUntil due)).filter (Holding.lasts later) =
      (held.map (parkUntil due)).filter (Holding.lasts later) := by
  cases held with
  | none => rfl
  | some h =>
    by_cases hlasts : h.lasts now = true
    · rw [Option.filter_some_pos hlasts]
    · have hdue : (parkUntil due h).lasts later = false := by
        cases hh : h.due with
        | none => simp [Holding.lasts, hh] at hlasts
        | some d =>
          simp only [Holding.lasts, hh, Option.all_some, decide_eq_true_eq] at hlasts
          simp only [Holding.lasts, parkUntil, hh, Option.getD_some, Option.all_some,
            decide_eq_false_iff_not]
          omega
      rw [Option.filter_some_neg (by simpa using hlasts), Option.map_some,
        Option.filter_some_neg hdue]
      rfl

theorem map_parkUntil_held (hr : r.Valid) (hlive : r.live[u]? = none) (due : Nat) :
    (r.held u).map (parkUntil due) = r.held u := by
  rcases assigned?_cases hr u with ⟨hu, _, _⟩ | ⟨n, w, hu, hn, _⟩ | ⟨p, w, hu, _, _, hw, _⟩
  · rw [held_eq_none hu]
    rfl
  · rw [hlive] at hn
    cases hn
  · rw [held_of_assigned? hu hw]
    rfl

theorem close_spec (hr : r.Valid) (now : Nat) (u : String) :
    (r.close now u).2.Valid ∧ (r.close now u).2.delay = r.delay ∧
      ∀ v, (r.close now u).2.held v =
        if u = v then ((r.held u).filter (Holding.lasts now)).map (parkUntil (now + r.delay))
        else (r.held v).filter (Holding.lasts now) := by
  obtain ⟨hvalid, hdelay, hheld⟩ := cleanUp_spec hr now
  simp only [← hheld]
  generalize hclean : r.cleanUp now = r₁ at *
  cases hlive : r₁.live[u]? with
  | none =>
    have hclose : (r.close now u).2 = r₁ := by simp [close, park, hclean, hlive]
    rw [hclose, map_parkUntil_held hvalid hlive]
    refine ⟨hvalid, hdelay, fun v => ?_⟩
    split_ifs with huv
    · rw [huv]
    · rfl
  | some n =>
    have hclose : (r.close now u).2 = r₁.closedAt now u n := by
      simp [close, park, hclean, hlive, closedAt]
    have hu : r₁.assigned? u = some (n, none) := by simp [assigned?, hlive]
    obtain ⟨w, hw, _, _⟩ := hvalid.serving u n none hu
    obtain ⟨hvalid', hassigned, hheld'⟩ := closedAt_spec hvalid now hlive
    rw [hclose]
    refine ⟨hvalid', hdelay, fun v => ?_⟩
    split_ifs with huv
    · rw [← huv, held_of_assigned? hassigned hw, held_of_assigned? hu hw, hdelay]
      rfl
    · exact hheld' v huv

/-- Tells workers to stop, by number. -/
def dismissed (numbers : List Nat) (workers : Array Worker) : Array Worker :=
  numbers.foldl (fun workers n => workers.modify n Worker.shutdown) workers

theorem foldl_update_shutdown (numbers : List Nat) (r : Registry) :
    numbers.foldl (fun r worker => r.update worker Worker.shutdown) r =
      { r with workers := dismissed numbers r.workers } := by
  induction numbers generalizing r with
  | nil => rfl
  | cons n numbers ih =>
    rw [List.foldl_cons, ih]
    rfl

/-- The workers of all documents, by number. -/
def stored (r : Registry) : List Nat :=
  r.live.values ++ r.parked.values.map Parked.worker

theorem shutdownAll_eq (r : Registry) :
    r.shutdownAll =
      { r with
        workers := dismissed r.stored r.workers
        live := ∅
        parked := ∅
        deadlines := [] } := by
  simp only [shutdownAll, foldl_update_shutdown]
  rfl

theorem shutdownAll_spec (hr : r.Valid) :
    r.shutdownAll.Valid ∧ r.shutdownAll.delay = r.delay ∧ ∀ v, r.shutdownAll.held v = none := by
  have hnone : ∀ v, r.shutdownAll.assigned? v = none := by simp [shutdownAll_eq, assigned?]
  refine ⟨⟨?_, ?_, ?_, ?_⟩, ?_, fun v => held_eq_none (hnone v)⟩
  · rw [shutdownAll_eq]
    exact hr.starts
  · intro u
    exact .inl (by simp [shutdownAll_eq])
  · simpa [shutdownAll_eq] using Agenda.empty _
  · simp [hnone]
  · rw [shutdownAll_eq]

end LogoServer.Registry
