import LogoServer.Proofs.Registry.Agenda
import LogoServer.Proofs.Worker.Foreseen
import Mathlib.Tactic

/-! What a registry holds for each document, and how its operations change that. Documents whose
deadline has passed stay in it until the next operation; to every later one they are gone. -/
namespace LogoServer

/-- What is held for a document. -/
structure Holding where
  /-- The document once its worker has done what it was given. -/
  document : Document
  /-- When a closed document is forgotten. -/
  due : Option Nat

/-- The document is not forgotten yet. -/
def Holding.lasts (now : Nat) (h : Holding) : Bool :=
  h.due.all (now < ·)

theorem Holding.filter_lasts_of_le {now later : Nat} (hle : now ≤ later) (held : Option Holding) :
    (held.filter (Holding.lasts now)).filter (Holding.lasts later) =
      held.filter (Holding.lasts later) := by
  rw [Option.filter_filter]
  congr 1
  funext h
  cases hdue : h.due with
  | none => simp [lasts, hdue]
  | some due =>
    simp only [lasts, hdue, Option.all_some, ← Bool.decide_and, decide_eq_decide]
    omega

namespace Registry

/-- The worker of a document, and when it is stopped if the document is closed. -/
def assigned? (r : Registry) (u : String) : Option (Nat × Option Nat) :=
  match r.live[u]? with
  | some n => some (n, none)
  | none => r.parked[u]?.map fun p => (p.worker, some p.deadline.due)

def held (r : Registry) (u : String) : Option Holding :=
  (r.assigned? u).bind fun (n, due) => r.workers[n]?.map fun w => ⟨w.foreseen.1, due⟩

/-- What holds of a registry whose workers can all be started. -/
structure Valid (r : Registry) : Prop where
  starts : ∀ u, r.startFailure u = none
  apart : ∀ u : String, r.live[u]? = none ∨ r.parked[u]? = none
  agenda : Agenda (fun u : String => r.parked[u]?) r.deadlines r.nextSequence
  serving : ∀ u n due, r.assigned? u = some (n, due) →
    ∃ w, r.workers[n]? = some w ∧ w.Serving ∧ w.uri = u

theorem valid_start (delay : Nat) : ({ delay } : Registry).Valid where
  starts := fun _ => rfl
  apart := fun _ => .inl (by simp)
  agenda := by simpa using Agenda.empty 0
  serving := by simp [assigned?]

variable {r r' : Registry} {u v : String} {n m : Nat} {due : Option Nat}

/-- A document is unknown, open or closed. -/
theorem assigned?_cases (hr : r.Valid) (u : String) :
    (r.assigned? u = none ∧ r.live[u]? = none ∧ r.parked[u]? = none) ∨
    (∃ n w, r.assigned? u = some (n, none) ∧ r.live[u]? = some n ∧ r.workers[n]? = some w ∧
      w.Serving ∧ w.uri = u) ∨
    (∃ p w, r.assigned? u = some (p.worker, some p.deadline.due) ∧ r.live[u]? = none ∧
      r.parked[u]? = some p ∧ r.workers[p.worker]? = some w ∧ w.Serving ∧ w.uri = u) := by
  cases hlive : r.live[u]? with
  | some n =>
    have hu : r.assigned? u = some (n, none) := by simp [assigned?, hlive]
    obtain ⟨w, hw, hserving, huri⟩ := hr.serving u _ _ hu
    exact .inr (.inl ⟨n, w, hu, rfl, hw, hserving, huri⟩)
  | none =>
    cases hparked : r.parked[u]? with
    | none => exact .inl ⟨by simp [assigned?, hlive, hparked], rfl, rfl⟩
    | some p =>
      have hu : r.assigned? u = some (p.worker, some p.deadline.due) := by
        simp [assigned?, hlive, hparked]
      obtain ⟨w, hw, hserving, huri⟩ := hr.serving u _ _ hu
      exact .inr (.inr ⟨p, w, hu, rfl, rfl, hw, hserving, huri⟩)

theorem live_of_assigned? (hu : r.assigned? u = some (n, none)) : r.live[u]? = some n := by
  unfold assigned? at hu
  cases hlive : r.live[u]? with
  | some m => simpa [hlive] using hu
  | none => simp [hlive] at hu

theorem assigned?_of_parked {p : Parked} (hr : r.Valid) (hp : r.parked[u]? = some p) :
    r.assigned? u = some (p.worker, some p.deadline.due) := by
  have hlive : r.live[u]? = none := (hr.apart u).resolve_right (by simp [hp])
  simp [assigned?, hlive, hp]

theorem Valid.worker_ne {due' : Option Nat} (hr : r.Valid) (hu : r.assigned? u = some (n, due))
    (hv : r.assigned? v = some (m, due')) (huv : u ≠ v) : n ≠ m := by
  obtain ⟨w, hw, _, hwu⟩ := hr.serving u n due hu
  obtain ⟨w', hw', _, hwv⟩ := hr.serving v m due' hv
  rintro rfl
  rw [hw] at hw'
  cases hw'
  exact huv (hwu.symm.trans hwv)

theorem held_of_assigned? {w : Worker} (hu : r.assigned? u = some (n, due))
    (hw : r.workers[n]? = some w) : r.held u = some ⟨w.foreseen.1, due⟩ := by
  simp [held, hu, hw]

theorem held_eq_none (hu : r.assigned? u = none) : r.held u = none := by
  simp [held, hu]

/-- What is held only depends on the entry and its worker. -/
theorem held_congr (hassigned : r'.assigned? u = r.assigned? u)
    (hworkers : ∀ n due, r.assigned? u = some (n, due) → r'.workers[n]? = r.workers[n]?) :
    r'.held u = r.held u := by
  unfold held
  rw [hassigned]
  cases hu : r.assigned? u with
  | none => rfl
  | some e => simp [hworkers e.1 e.2 hu]

/-- A registry that differs from a valid one in a single document. -/
theorem frame (hr : r.Valid) (r' : Registry) (u : String)
    (hstarts : r'.startFailure = r.startFailure)
    (hlive : ∀ v, u ≠ v → r'.live[v]? = r.live[v]?)
    (hparked : ∀ v, u ≠ v → r'.parked[v]? = r.parked[v]?)
    (hworkers : ∀ v n due, u ≠ v → r.assigned? v = some (n, due) → r'.workers[n]? = r.workers[n]?)
    (hapart : r'.live[u]? = none ∨ r'.parked[u]? = none)
    (hagenda : Agenda (fun v : String => r'.parked[v]?) r'.deadlines r'.nextSequence)
    (hserving : ∀ n due, r'.assigned? u = some (n, due) →
      ∃ w, r'.workers[n]? = some w ∧ w.Serving ∧ w.uri = u) :
    r'.Valid ∧ ∀ v, u ≠ v → r'.held v = r.held v := by
  have hassigned : ∀ v, u ≠ v → r'.assigned? v = r.assigned? v := by
    intro v huv
    rw [assigned?, assigned?, hlive v huv, hparked v huv]
  refine ⟨⟨by rw [hstarts]; exact hr.starts, fun v => ?_, hagenda, fun v n due hv => ?_⟩,
    fun v huv => held_congr (hassigned v huv) fun n due => hworkers v n due huv⟩
  · by_cases huv : u = v
    · subst huv
      exact hapart
    · rw [hlive v huv, hparked v huv]
      exact hr.apart v
  · by_cases huv : u = v
    · subst huv
      exact hserving n due hv
    · rw [hassigned v huv] at hv
      rw [hworkers v n due huv hv]
      exact hr.serving v n due hv

/-! ### Forgetting what is due -/

def withDeadlines (r : Registry) (ds : List (Deadline × String)) : Registry :=
  { r with deadlines := ds }

/-- The first of the deadlines is met. -/
def pop (r : Registry) (u : String) (rest : List (Deadline × String)) : Registry :=
  (r.withDeadlines rest).evict u

theorem evict_withDeadlines (ds : List (Deadline × String)) :
    (r.withDeadlines ds).evict u = (r.evict u).withDeadlines ds := by
  unfold evict
  have hparked : (r.withDeadlines ds).parked[u]? = r.parked[u]? := rfl
  rw [hparked]
  cases r.parked[u]? <;> rfl

def passed (now : Nat) (d : Deadline × String) : Bool :=
  d.1.due ≤ now

theorem cleanUp_eq (now : Nat) :
    r.cleanUp now = ((r.deadlines.takeWhile (passed now)).map Prod.snd).foldl evict
      (r.withDeadlines (r.deadlines.dropWhile (passed now))) := rfl

theorem deadlines_pop (rest : List (Deadline × String)) : (r.pop u rest).deadlines = rest := by
  unfold pop
  rw [evict_withDeadlines]
  rfl

/-- Only the first of the deadlines is looked at. -/
theorem cleanUp_eq_self {now : Nat} (h : ∀ x ∈ r.deadlines.head?, now < x.1.due) :
    r.cleanUp now = r := by
  have hnone : ∀ x ∈ r.deadlines.head?, ¬ passed now x = true := by
    intro x hx
    have := h x hx
    simp only [passed, decide_eq_true_eq]
    omega
  have htake : r.deadlines.takeWhile (passed now) = [] := by
    cases hds : r.deadlines with
    | nil => rfl
    | cons x rest => exact List.takeWhile_cons_of_neg (hnone x (by simp [hds]))
  have hdrop : r.deadlines.dropWhile (passed now) = r.deadlines := by
    cases hds : r.deadlines with
    | nil => rfl
    | cons x rest => exact List.dropWhile_cons_of_neg (hnone x (by simp [hds]))
  rw [cleanUp_eq, htake, hdrop]
  rfl

theorem cleanUp_cons {now : Nat} {d : Deadline} {rest : List (Deadline × String)}
    (h : r.deadlines = (d, u) :: rest) (hd : d.due ≤ now) :
    r.cleanUp now = (r.pop u rest).cleanUp now := by
  have hpop : r.pop u rest = (r.evict u).withDeadlines rest := evict_withDeadlines rest
  have hpassed : passed now (d, u) = true := by simpa [passed] using hd
  rw [cleanUp_eq, cleanUp_eq, hpop, h, List.takeWhile_cons_of_pos hpassed,
    List.dropWhile_cons_of_pos hpassed, List.map_cons, List.foldl_cons, evict_withDeadlines]
  rfl

/-- What is kept whenever a deadline is met is kept by forgetting all that is due. -/
theorem cleanUp_induction {motive : Registry → Prop} {now : Nat}
    (hpop : ∀ r d u rest, motive r → r.deadlines = (d, u) :: rest → d.due ≤ now →
      motive (r.pop u rest)) (r : Registry) (hr : motive r) : motive (r.cleanUp now) := by
  induction hds : r.deadlines generalizing r with
  | nil =>
    rw [cleanUp_eq_self (by simp [hds])]
    exact hr
  | cons x rest ih =>
    obtain ⟨d, u⟩ := x
    by_cases hd : d.due ≤ now
    · rw [cleanUp_cons hds hd]
      exact ih _ (hpop r d u rest hr hds hd) (deadlines_pop rest)
    · rw [cleanUp_eq_self (by simpa [hds] using hd)]
      exact hr

theorem pop_eq {d : Deadline} (rest : List (Deadline × String)) (hn : r.parked[u]? = some ⟨n, d⟩) :
    r.pop u rest =
      { r.update n Worker.shutdown with
        deadlines := rest
        parked := r.parked.erase u
        evicted := r.evicted + 1 } := by
  simp [pop, evict, withDeadlines, hn, update]

/-- A document whose deadline is met is forgotten, and no other is. -/
theorem pop_spec (hr : r.Valid) {d : Deadline} {rest : List (Deadline × String)}
    (h : r.deadlines = (d, u) :: rest) :
    (r.pop u rest).Valid ∧ (r.pop u rest).deadlines = rest ∧ (r.pop u rest).delay = r.delay ∧
      ∀ v, (r.pop u rest).held v = if u = v then none else r.held v := by
  have hagenda := hr.agenda
  rw [h] at hagenda
  obtain ⟨n, hn⟩ := (hagenda.mem_iff d u).mp List.mem_cons_self
  have hu := assigned?_of_parked hr hn
  have hpop := pop_eq rest hn
  have hparked : ∀ v : String, (r.pop u rest).parked[v]? =
      if u = v then none else r.parked[v]? := by
    intro v
    simp [hpop, Std.TreeMap.getElem?_erase]
  have hlive : (r.pop u rest).live = r.live := by rw [hpop]; rfl
  have hgone : (r.pop u rest).assigned? u = none := by
    rw [assigned?, hlive, hparked, (hr.apart u).resolve_right (by simp [hn]), if_pos rfl]
    rfl
  have hworkers : ∀ v m due, u ≠ v → r.assigned? v = some (m, due) →
      (r.pop u rest).workers[m]? = r.workers[m]? := by
    intro v m due huv hv
    have hnm := hr.worker_ne hu hv huv
    simp [hpop, update, Array.getElem?_modify, hnm]
  have hagenda' : Agenda (fun v : String => (r.pop u rest).parked[v]?) (r.pop u rest).deadlines
      (r.pop u rest).nextSequence := by
    have hdrop := hagenda.drop (List.sublist_cons_self _ _) hagenda.mem_tail_iff
    simp only [← hparked] at hdrop
    rw [hpop] at hdrop ⊢
    exact hdrop
  have hframe := frame hr (r.pop u rest) u (by rw [hpop]; rfl) (fun v _ => by rw [hlive])
    (fun v huv => by rw [hparked, if_neg huv]) hworkers (.inr (by rw [hparked, if_pos rfl]))
    hagenda' (by simp [hgone])
  refine ⟨hframe.1, deadlines_pop rest, by rw [hpop]; rfl, fun v => ?_⟩
  split_ifs with huv
  · rw [← huv]
    exact held_eq_none hgone
  · exact hframe.2 v huv

/-- Documents are kept as long as no deadline has passed. -/
theorem filter_lasts_held (hr : r.Valid) {now : Nat} (h : ∀ x ∈ r.deadlines, now < x.1.due)
    (u : String) : (r.held u).filter (Holding.lasts now) = r.held u := by
  rcases assigned?_cases hr u with ⟨hu, _, _⟩ | ⟨n, w, hu, _, hw, _⟩ | ⟨p, w, hu, _, hp, hw, _⟩
  · rw [held_eq_none hu, Option.filter_none]
  · rw [held_of_assigned? hu hw, Option.filter_some_pos rfl]
  · have hdue := h (p.deadline, u) ((hr.agenda.mem_iff _ _).mpr ⟨p.worker, hp⟩)
    rw [held_of_assigned? hu hw, Option.filter_some_pos (by simpa [Holding.lasts] using hdue)]

theorem filter_lasts_due (hr : r.Valid) {d : Deadline} {now : Nat} (hu : (d, u) ∈ r.deadlines)
    (hd : d.due ≤ now) : (r.held u).filter (Holding.lasts now) = none := by
  obtain ⟨n, hn⟩ := (hr.agenda.mem_iff d u).mp hu
  have hassigned := assigned?_of_parked hr hn
  obtain ⟨w, hw, _, _⟩ := hr.serving u _ _ hassigned
  rw [held_of_assigned? hassigned hw]
  simpa [Option.filter, Holding.lasts] using hd

/-- What is due is forgotten, and nothing else. -/
theorem cleanUp_spec (hr : r.Valid) (now : Nat) :
    (r.cleanUp now).Valid ∧ (r.cleanUp now).delay = r.delay ∧
      ∀ u, (r.cleanUp now).held u = (r.held u).filter (Holding.lasts now) := by
  induction hds : r.deadlines generalizing r with
  | nil =>
    have hlasts : ∀ x ∈ r.deadlines, now < x.1.due := by simp [hds]
    rw [cleanUp_eq_self (by simp [hds])]
    exact ⟨hr, rfl, fun u => (filter_lasts_held hr hlasts u).symm⟩
  | cons x rest ih =>
    obtain ⟨d, v⟩ := x
    by_cases hd : d.due ≤ now
    · obtain ⟨hvalid, hdeadlines, hdelay, hheld⟩ := pop_spec hr hds
      obtain ⟨hvalid', hdelay', hheld'⟩ := ih hvalid hdeadlines
      rw [cleanUp_cons hds hd]
      refine ⟨hvalid', hdelay'.trans hdelay, fun u => ?_⟩
      rw [hheld', hheld]
      split_ifs with hvu
      · subst hvu
        exact (filter_lasts_due hr (by simp [hds]) hd).symm
      · rfl
    · have hlasts : ∀ x ∈ r.deadlines, now < x.1.due :=
        hr.agenda.lt_due (by simpa [hds] using hd)
      rw [cleanUp_eq_self fun x hx => hlasts x (List.mem_of_mem_head? hx)]
      exact ⟨hr, rfl, fun u => (filter_lasts_held hr hlasts u).symm⟩

/-! ### Workers at work -/

theorem getElem?_update (r : Registry) (n : Nat) (change : Worker → Worker) (m : Nat) :
    (r.update n change).workers[m]? =
      r.workers[m]?.map fun w => if n = m then change w else w := by
  rw [update, Array.getElem?_modify]
  split_ifs <;> simp

/-- A worker that changes, still serving the document it serves if any, changes nothing else. -/
theorem update_spec (hr : r.Valid) (n : Nat) (change : Worker → Worker)
    (hchange : ∀ u due w, r.assigned? u = some (n, due) → r.workers[n]? = some w → w.Serving →
      (change w).Serving ∧ (change w).uri = w.uri) :
    (r.update n change).Valid ∧ ∀ v, (r.update n change).held v =
      (r.assigned? v).bind fun (m, due) => r.workers[m]?.map fun w =>
        ⟨(if n = m then change w else w).foreseen.1, due⟩ := by
  refine ⟨⟨hr.starts, hr.apart, hr.agenda, fun v m due hv => ?_⟩, fun v => ?_⟩
  · obtain ⟨w, hw, hserving, huri⟩ := hr.serving v m due hv
    rw [getElem?_update, hw]
    by_cases hnm : n = m
    · subst hnm
      obtain ⟨hserving', huri'⟩ := hchange v due w hv hw hserving
      exact ⟨change w, by simp, hserving', huri'.trans huri⟩
    · exact ⟨w, by simp [hnm], hserving, huri⟩
  · have hassigned : (r.update n change).assigned? v = r.assigned? v := rfl
    unfold held
    rw [hassigned]
    simp only [getElem?_update, Option.map_map]
    rfl

/-- What a worker does by itself changes nothing that is held. -/
theorem update_frame (hr : r.Valid) (n : Nat) (change : Worker → Worker)
    (hchange : ∀ w, r.workers[n]? = some w → w.Serving →
      (change w).Serving ∧ (change w).foreseen = w.foreseen) :
    (r.update n change).Valid ∧ ∀ v, (r.update n change).held v = r.held v := by
  have huri : ∀ w, (change w).foreseen = w.foreseen → (change w).uri = w.uri := by
    intro w hw
    rw [← Worker.uri_foreseen, hw, Worker.uri_foreseen]
  obtain ⟨hvalid, hheld⟩ := update_spec hr n change fun u due w _ hw hserving =>
    ⟨(hchange w hw hserving).1, huri w (hchange w hw hserving).2⟩
  refine ⟨hvalid, fun v => ?_⟩
  rw [hheld, held]
  cases hv : r.assigned? v with
  | none => rfl
  | some e =>
    obtain ⟨m, due⟩ := e
    obtain ⟨w, hw, hserving, _⟩ := hr.serving v m due hv
    by_cases hnm : n = m
    · subst hnm
      simp [hw, (hchange w hw hserving).2]
    · simp [hw, hnm]

end Registry

end LogoServer
