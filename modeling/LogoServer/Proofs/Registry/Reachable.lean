import LogoServer.Proofs.Registry.Operations
import LogoServer.Proofs.Registry.Staff
import LogoServer.Proofs.Worker.Moves
import Mathlib.Tactic

/-! What holds of a registry in every state it can get into: its maps tell of the same documents, it
runs the workers it stores and no others, and its counters add up. -/
namespace LogoServer

section Maps

variable {β : Type} {t : Std.TreeMap String β} {u : String} {b : β}

theorem mem_values_iff : b ∈ t.values ↔ ∃ u : String, t[u]? = some b := by
  have hvalues : t.values = t.toList.map Prod.snd := by
    change t.foldr (fun _ v l => v :: l) [] = _
    rw [Std.TreeMap.foldr_eq_foldr_toList]
    induction t.toList with
    | nil => rfl
    | cons x xs ih => rw [List.foldr_cons, ih, List.map_cons]
  rw [hvalues, List.mem_map]
  constructor
  · rintro ⟨⟨u, _⟩, hmem, rfl⟩
    exact ⟨u, Std.TreeMap.mem_toList_iff_getElem?_eq_some.mp hmem⟩
  · rintro ⟨u, hu⟩
    exact ⟨(u, b), Std.TreeMap.mem_toList_iff_getElem?_eq_some.mpr hu, rfl⟩

theorem size_insert_of_none (b : β) (h : t[u]? = none) : (t.insert u b).size = t.size + 1 := by
  have hmem : ¬ t.contains u = true := by
    rw [Std.TreeMap.contains_iff_mem, Std.TreeMap.mem_iff_isSome_getElem?, h]
    simp
  rw [Std.TreeMap.size_insert, if_neg hmem]

theorem size_erase_of_some (h : t[u]? = some b) : (t.erase u).size + 1 = t.size := by
  have hmem : u ∈ t := by
    rw [Std.TreeMap.mem_iff_isSome_getElem?, h]
    rfl
  have hpos : t.size ≠ 0 := by
    intro hzero
    have hempty : t.isEmpty = true := by
      rw [Std.TreeMap.isEmpty_eq_size_eq_zero, hzero]
      rfl
    exact Std.TreeMap.isEmpty_iff_forall_not_mem.mp hempty u hmem
  rw [Std.TreeMap.size_erase, if_pos (Std.TreeMap.contains_iff_mem.mpr hmem)]
  omega

end Maps

namespace Registry

/-- The registry stores a worker for a document, open or closed. -/
def Stores (r : Registry) (u : String) (n : Nat) : Prop :=
  r.live[u]? = some n ∨ ∃ d, r.parked[u]? = some ⟨n, d⟩

/-- What holds of every registry; `stopped` counts the workers that shutdowns stopped. -/
structure Consistent (r : Registry) (stopped : Nat) : Prop where
  apart : ∀ u : String, r.live[u]? = none ∨ r.parked[u]? = none
  agenda : Agenda (fun u : String => r.parked[u]?) r.deadlines r.nextSequence
  staffed : Staffed r.workers r.Stores (r.live.size + r.parked.size)
  size_eq : r.workers.size = r.created
  created_eq : r.created = r.live.size + r.parked.size + r.evicted + stopped

variable {r : Registry} {u : String} {n stopped : Nat}

theorem consistent_new (delay : Nat) : ({ delay } : Registry).Consistent 0 where
  apart := fun _ => .inl (by simp)
  agenda := by simpa using Agenda.empty 0
  staffed := Staffed.nobody.congr (by simp [Stores])
  size_eq := rfl
  created_eq := rfl

namespace Consistent

theorem live_eq_none {p : Parked} (h : r.Consistent stopped) (hp : r.parked[u]? = some p) :
    r.live[u]? = none :=
  (h.apart u).resolve_right (by simp [hp])

theorem parked_eq_none (h : r.Consistent stopped) (hn : r.live[u]? = some n) :
    r.parked[u]? = none :=
  (h.apart u).resolve_left (by simp [hn])

/-- A document whose deadline is met is forgotten and its worker stopped. -/
theorem pop (h : r.Consistent stopped) {d : Deadline} {rest : List (Deadline × String)}
    (hds : r.deadlines = (d, u) :: rest) : (r.pop u rest).Consistent stopped := by
  have hagenda := h.agenda
  rw [hds] at hagenda
  obtain ⟨n, hn⟩ := (hagenda.mem_iff d u).mp List.mem_cons_self
  have hlive := h.live_eq_none hn
  have hsize := size_erase_of_some hn
  have hparked : ∀ v : String, (r.parked.erase u)[v]? = if u = v then none else r.parked[v]? := by
    intro v
    simp [Std.TreeMap.getElem?_erase]
  rw [pop_eq rest hn]
  refine ⟨fun v => ?_, ?_, ?_, (Array.size_modify).trans h.size_eq, ?_⟩
  · rcases h.apart v with hv | hv
    · exact .inl hv
    · exact .inr (by simp [hparked, hv])
  · have hdrop := hagenda.drop (List.sublist_cons_self _ _) hagenda.mem_tail_iff
    simp only [← hparked] at hdrop
    exact hdrop
  · have hstaffed := h.staffed
    rw [← hsize, ← Nat.add_assoc] at hstaffed
    refine (hstaffed.dismiss (.inr ⟨d, hn⟩)).congr fun v m => ?_
    simp only [Stores, hparked]
    by_cases huv : u = v
    · subst huv
      simp [update, hlive]
    · simp [update, huv]
  · have hcreated := h.created_eq
    simp only [update]
    omega

theorem cleanUp (h : r.Consistent stopped) (now : Nat) : (r.cleanUp now).Consistent stopped :=
  cleanUp_induction (motive := fun r => r.Consistent stopped) (fun _ _ _ _ h hds _ => h.pop hds) r h

/-- A worker is started for a document that has none. -/
theorem launched (h : r.Consistent stopped) (hlive : r.live[u]? = none)
    (hparked : r.parked[u]? = none) : (r.launched u).Consistent stopped := by
  have hsize := size_insert_of_none r.workers.size hlive
  have hlive' : ∀ v : String, (r.launched u).live[v]? =
      if u = v then some r.workers.size else r.live[v]? := by
    intro v
    simp [Registry.launched, Std.TreeMap.getElem?_insert]
  refine ⟨fun v => ?_, h.agenda, ?_, ?_, ?_⟩
  · by_cases huv : u = v
    · subst huv
      exact .inr hparked
    · rw [hlive', if_neg huv]
      exact h.apart v
  · have hstaffed := h.staffed.hire (u := u) (by simp [Stores, hlive, hparked]) r.workers.size
    have htotal : (r.launched u).live.size + (r.launched u).parked.size =
        r.live.size + r.parked.size + 1 := by
      simp only [Registry.launched]
      omega
    rw [htotal]
    refine hstaffed.congr fun v m => ?_
    simp only [Stores, hlive']
    by_cases huv : u = v
    · subst huv
      simp [Registry.launched, hlive, hparked, eq_comm]
    · simp [Registry.launched, huv]
  · simp [Registry.launched, h.size_eq]
  · have hcreated := h.created_eq
    simp only [Registry.launched]
    omega

/-- A closed document gets back its worker. -/
theorem reopened (h : r.Consistent stopped) {p : Parked} (hp : r.parked[u]? = some p) :
    (r.reopened u p).Consistent stopped := by
  have hlive := h.live_eq_none hp
  have hlive' : ∀ v : String, (r.reopened u p).live[v]? =
      if u = v then some p.worker else r.live[v]? := by
    intro v
    simp [Registry.reopened, Std.TreeMap.getElem?_insert]
  have hparked' : ∀ v : String, (r.reopened u p).parked[v]? =
      if u = v then none else r.parked[v]? := by
    intro v
    simp [Registry.reopened, Std.TreeMap.getElem?_erase]
  have hsize : (r.reopened u p).live.size + (r.reopened u p).parked.size =
      r.live.size + r.parked.size := by
    have hinsert := size_insert_of_none p.worker hlive
    have herase := size_erase_of_some hp
    simp only [Registry.reopened]
    omega
  refine ⟨fun v => ?_, ?_, ?_, h.size_eq, ?_⟩
  · rw [hlive', hparked']
    split_ifs
    · exact .inr rfl
    · exact h.apart v
  · have hdrop := h.agenda.drop List.filter_sublist (h.agenda.mem_filter_iff hp)
    simp only [← hparked'] at hdrop
    exact hdrop
  · rw [hsize]
    refine h.staffed.congr fun v m => ?_
    simp only [Stores, hlive', hparked']
    by_cases huv : u = v
    · subst huv
      obtain ⟨worker, deadline⟩ := p
      simp [hlive, hp]
    · simp [huv]
  · rw [hsize]
    exact h.created_eq

/-- An open document is closed. -/
theorem closedAt (h : r.Consistent stopped) (now : Nat) (hn : r.live[u]? = some n) :
    (r.closedAt now u n).Consistent stopped := by
  have hparked := h.parked_eq_none hn
  have hlive' : ∀ v : String, (r.closedAt now u n).live[v]? =
      if u = v then none else r.live[v]? := by
    intro v
    simp [Registry.closedAt, Std.TreeMap.getElem?_erase]
  have hparked' : ∀ v : String, (r.closedAt now u n).parked[v]? =
      if u = v then some ⟨n, ⟨now + r.delay, r.nextSequence⟩⟩ else r.parked[v]? := by
    intro v
    simp [Registry.closedAt, Std.TreeMap.getElem?_insert]
  have hsize : (r.closedAt now u n).live.size + (r.closedAt now u n).parked.size =
      r.live.size + r.parked.size := by
    have hinsert := size_insert_of_none (Parked.mk n ⟨now + r.delay, r.nextSequence⟩) hparked
    have herase := size_erase_of_some hn
    simp only [Registry.closedAt]
    omega
  refine ⟨fun v => ?_, ?_, ?_, h.size_eq, ?_⟩
  · rw [hlive', hparked']
    split_ifs
    · exact .inl rfl
    · exact h.apart v
  · have hadd := h.agenda.add hparked n (now + r.delay)
    simp only [← hparked'] at hadd
    exact hadd
  · rw [hsize]
    refine h.staffed.congr fun v m => ?_
    simp only [Stores, hlive', hparked']
    by_cases huv : u = v
    · subst huv
      simp [hn, hparked]
    · simp [huv]
  · rw [hsize]
    exact h.created_eq

theorem acquire (h : r.Consistent stopped) (now : Nat) (u : String) :
    (r.acquire now u).2.Consistent stopped := by
  have hclean := h.cleanUp now
  rcases acquire_cases r now u with ⟨n, _, heq⟩ | ⟨p, _, hp, heq⟩ | ⟨cause, _, _, _, heq⟩ |
    ⟨hlive, hparked, heq⟩
  all_goals rw [heq]
  · exact hclean
  · exact hclean.reopened hp
  · exact hclean
  · exact hclean.launched hlive hparked

theorem close (h : r.Consistent stopped) (now : Nat) (u : String) :
    (r.close now u).2.Consistent stopped := by
  have hclean := h.cleanUp now
  rcases close_cases r now u with ⟨_, heq⟩ | ⟨n, hn, heq⟩
  all_goals rw [heq]
  · exact hclean
  · exact hclean.closedAt now hn

/-- A worker goes on without being told to stop. -/
theorem update (h : r.Consistent stopped) (n : Nat) {change : Worker → Worker}
    (hchange : ∀ w, r.workers[n]? = some w →
      (change w).running = w.running ∧ (change w).uri = w.uri) :
    (r.update n change).Consistent stopped :=
  ⟨h.apart, h.agenda, h.staffed.goOn n hchange, (Array.size_modify).trans h.size_eq, h.created_eq⟩

end Consistent

theorem getElem?_dismissed (numbers : List Nat) (workers : Array Worker) (n : Nat) :
    (dismissed numbers workers)[n]? =
      workers[n]?.map fun w => if n ∈ numbers then w.shutdown else w := by
  induction numbers generalizing workers with
  | nil => simp [dismissed]
  | cons m numbers ih =>
    have hcons : dismissed (m :: numbers) workers =
        dismissed numbers (workers.modify m Worker.shutdown) := rfl
    rw [hcons, ih, Array.getElem?_modify]
    by_cases hm : m = n
    · have htwice : ∀ w : Worker, w.shutdown.shutdown = w.shutdown := fun _ => rfl
      simp [hm, Function.comp_def, htwice]
    · simp [hm, Ne.symm hm]

theorem size_dismissed (numbers : List Nat) (workers : Array Worker) :
    (dismissed numbers workers).size = workers.size := by
  induction numbers generalizing workers with
  | nil => rfl
  | cons m numbers ih => exact (ih _).trans Array.size_modify

theorem mem_stored_iff : n ∈ r.stored ↔ ∃ u, r.Stores u n := by
  simp only [stored, List.mem_append, List.mem_map, mem_values_iff, Stores]
  constructor
  · rintro (⟨u, hu⟩ | ⟨⟨_, d⟩, ⟨u, hu⟩, rfl⟩)
    · exact ⟨u, .inl hu⟩
    · exact ⟨u, .inr ⟨d, hu⟩⟩
  · rintro ⟨u, hu | ⟨d, hu⟩⟩
    · exact .inl ⟨u, hu⟩
    · exact .inr ⟨⟨n, d⟩, ⟨u, hu⟩, rfl⟩

/-- Number of workers that run before and were told to stop after. -/
def halted (before after : Registry) : Nat :=
  (before.workers.toList.zip after.workers.toList).countP fun x => x.1.running && !x.2.running

namespace Consistent

/-- After a shutdown no worker runs: those that ran were all stored. -/
theorem running_shutdownAll (h : r.Consistent stopped) {w : Worker}
    (hw : r.shutdownAll.workers[n]? = some w) : w.running = false := by
  rw [shutdownAll_eq, getElem?_dismissed] at hw
  obtain ⟨w₀, hw₀, rfl⟩ := Option.map_eq_some_iff.mp hw
  split_ifs with hn
  · rfl
  · rw [mem_stored_iff, ← h.staffed.running_iff n w₀ hw₀] at hn
    simpa using hn

theorem halted_shutdownAll (h : r.Consistent stopped) :
    r.halted r.shutdownAll = r.live.size + r.parked.size := by
  have hcongr : r.halted r.shutdownAll =
      (r.workers.toList.zip r.shutdownAll.workers.toList).countP (Worker.running ∘ Prod.fst) := by
    refine List.countP_congr fun x hx => ?_
    obtain ⟨n, hn⟩ := List.getElem?_of_mem (List.of_mem_zip hx).2
    rw [Array.getElem?_toList] at hn
    simp [h.running_shutdownAll hn]
  have hlength : r.workers.toList.length ≤ r.shutdownAll.workers.toList.length := by
    simp [shutdownAll_eq, size_dismissed]
  rw [hcongr, ← List.countP_map, List.map_fst_zip hlength, Array.countP_toList]
  exact h.staffed.count

theorem shutdownAll (h : r.Consistent stopped) :
    r.shutdownAll.Consistent (stopped + r.halted r.shutdownAll) := by
  have hstores : ∀ u n, ¬ r.shutdownAll.Stores u n := by simp [shutdownAll_eq, Stores]
  have hempty : r.shutdownAll.live.size + r.shutdownAll.parked.size = 0 := by
    simp [shutdownAll_eq]
  refine ⟨?_, ?_, ?_, ?_, ?_⟩
  · intro u
    exact .inl (by simp [shutdownAll_eq])
  · simpa [shutdownAll_eq] using Agenda.empty _
  · rw [hempty]
    refine ⟨?_, ?_, fun n w hw => ?_, ?_⟩
    · intro u n hu
      exact absurd hu (hstores u n)
    · intro u n m hu
      exact absurd hu (hstores u n)
    · simp [h.running_shutdownAll hw, hstores]
    · rw [Array.countP_eq_zero]
      intro w hw
      obtain ⟨n, hn⟩ := Array.getElem?_of_mem hw
      simp [h.running_shutdownAll hn]
  · rw [shutdownAll_eq]
    exact (size_dismissed _ _).trans h.size_eq
  · have hcreated : r.shutdownAll.created = r.created := by rw [shutdownAll_eq]
    have hevicted : r.shutdownAll.evicted = r.evicted := by rw [shutdownAll_eq]
    rw [hempty, hcreated, hevicted, h.halted_shutdownAll, h.created_eq]
    omega

end Consistent

/-- The states a registry can get into by what is done to it, at whatever times, and by what its
workers do meanwhile; `stopped` counts the workers that shutdowns stopped. -/
inductive Reachable (delay : Nat) : Nat → Registry → Prop
  | new : Reachable delay 0 { delay }
  /-- From now on other documents cannot get a worker. -/
  | startFailure {stopped : Nat} {r : Registry} (h : Reachable delay stopped r)
      (startFailure : String → Option String) : Reachable delay stopped { r with startFailure }
  | acquire {stopped : Nat} {r : Registry} (h : Reachable delay stopped r) (now : Nat)
      (u : String) : Reachable delay stopped (r.acquire now u).2
  | find {stopped : Nat} {r : Registry} (h : Reachable delay stopped r) (now : Nat) (u : String) :
      Reachable delay stopped (r.find now u).2
  | close {stopped : Nat} {r : Registry} (h : Reachable delay stopped r) (now : Nat) (u : String) :
      Reachable delay stopped (r.close now u).2
  | cleanUp {stopped : Nat} {r : Registry} (h : Reachable delay stopped r) (now : Nat) :
      Reachable delay stopped (r.cleanUp now)
  | shutdownAll {stopped : Nat} {r : Registry} (h : Reachable delay stopped r) :
      Reachable delay (stopped + r.halted r.shutdownAll) r.shutdownAll
  /-- A task is handed in to a worker. -/
  | submit {stopped n ticket : Nat} {r r' : Registry} {u : String} {request : Request}
      (h : Reachable delay stopped r) (hsubmit : r.submit n u request = .ok (ticket, r')) :
      Reachable delay stopped r'
  /-- A worker takes a step. -/
  | work {stopped : Nat} {r : Registry} (h : Reachable delay stopped r) (n : Nat) :
      Reachable delay stopped (r.update n Worker.step)

theorem Reachable.consistent {delay : Nat} (h : Reachable delay stopped r) :
    r.Consistent stopped := by
  induction h with
  | new => exact consistent_new delay
  | startFailure _ _ ih => exact ⟨ih.apart, ih.agenda, ih.staffed, ih.size_eq, ih.created_eq⟩
  | acquire _ now u ih => exact ih.acquire now u
  | find _ now u ih => exact ih.cleanUp now
  | close _ now u ih => exact ih.close now u
  | cleanUp _ now ih => exact ih.cleanUp now
  | shutdownAll _ ih => exact ih.shutdownAll
  | submit _ hsubmit ih =>
    obtain ⟨w, w', hw, hsubmit', rfl⟩ := submit_eq_ok hsubmit
    obtain ⟨_, rfl⟩ := Worker.submit_eq_ok hsubmit'
    refine ih.update _ fun w₀ hw₀ => ?_
    rw [hw] at hw₀
    cases hw₀
    exact ⟨rfl, rfl⟩
  | work _ n ih =>
    refine ih.update n fun w _ => ?_
    obtain ⟨hrunning, _, _, huri⟩ := w.step_keeps
    exact ⟨hrunning, huri⟩

/-- In every state a registry can get into, no document is open and closed, deadlines are those of
the closed documents, every document has a worker of its own, the workers that run are those of some
document, and every worker ever started is accounted for. -/
theorem Reachable.accounts {delay : Nat} (h : Reachable delay stopped r) :
    (∀ u : String, r.live[u]? = none ∨ r.parked[u]? = none) ∧
      (∀ d u, (d, u) ∈ r.deadlines ↔ ∃ n, r.parked[u]? = some ⟨n, d⟩) ∧
      r.deadlines.Pairwise (fun x y => x.1.before y.1 = true) ∧
      (∀ (u v : String) (p q : Parked), r.parked[u]? = some p → r.parked[v]? = some q → u ≠ v →
        p.deadline ≠ q.deadline) ∧
      (∀ (u : String) (p : Parked), r.parked[u]? = some p →
        p.deadline.sequence < r.nextSequence) ∧
      (∀ u n, r.Stores u n → ∃ w, r.workers[n]? = some w ∧ w.uri = u) ∧
      (∀ u v n, r.Stores u n → r.Stores v n → u = v) ∧
      (∀ n w, r.workers[n]? = some w → (w.running = true ↔ ∃ u, r.Stores u n)) ∧
      r.workers.size = r.created ∧
      r.created = r.live.size + r.parked.size + r.evicted + stopped := by
  have hr := h.consistent
  refine ⟨hr.apart, hr.agenda.mem_iff, hr.agenda.sorted, fun u v p q hp hq huv heq => ?_,
    fun u p hp => ?_, hr.staffed.own, fun u v n => hr.staffed.eq_of_stores, hr.staffed.running_iff,
    hr.size_eq, hr.created_eq⟩
  · have hu := (hr.agenda.mem_iff p.deadline u).mpr ⟨p.worker, hp⟩
    have hv := (hr.agenda.mem_iff q.deadline v).mpr ⟨q.worker, hq⟩
    rw [← heq] at hv
    exact huv (hr.agenda.eq_of_mem hu hv)
  · exact hr.agenda.fresh _ ((hr.agenda.mem_iff p.deadline u).mpr ⟨p.worker, hp⟩)

theorem accounts_after_shutdown :
    ∃ stopped r, Reachable 10 stopped r ∧ r.evicted = 1 ∧ stopped = 1 ∧
      r.created = r.live.size + r.parked.size + r.evicted + stopped ∧ r.created = 2 := by
  have hnew : Reachable 10 0 { delay := 10 } := .new
  have hclosed := ((hnew.acquire 0 "logo:a").acquire 0 "logo:b").close 1 "logo:a"
  have h := (hclosed.cleanUp 11).shutdownAll
  obtain ⟨_, _, _, _, _, _, _, _, _, hcreated⟩ := h.accounts
  exact ⟨_, _, h, by decide +kernel, by decide +kernel, hcreated, by decide +kernel⟩

end Registry

end LogoServer
