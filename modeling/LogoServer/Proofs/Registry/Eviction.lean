import LogoServer.Proofs.Registry.Reachable
import Mathlib.Tactic

/-! What is evicted from a registry. Only the front of the deadlines is looked at, but they are in
order and tell of the same documents as the map of closed ones: so just those documents go that are
due, and their workers are told to stop. -/
namespace LogoServer.Registry

/-- The worker of a closed document whose deadline has come. -/
def Expires (r : Registry) (now n : Nat) : Prop :=
  ∃ (u : String) (p : Parked), r.parked[u]? = some p ∧ p.worker = n ∧ p.deadline.due ≤ now

/-- No closed document is due, nor is any deadline. -/
structure NoneDue (r : Registry) (now : Nat) : Prop where
  parked : ∀ (u : String) (p : Parked), r.parked[u]? = some p → now < p.deadline.due
  deadlines : ∀ x ∈ r.deadlines, now < x.1.due

/-- The second registry is the first one without the documents that are due: their workers are told
to stop, and everything else is as it was. -/
structure Evicts (now : Nat) (r r' : Registry) : Prop where
  parked : ∀ u : String, r'.parked[u]? = r.parked[u]?.filter fun p => now < p.deadline.due
  deadlines : r'.deadlines = r.deadlines.filter fun x => now < x.1.due
  stopped : ∀ n, r.Expires now n → r'.workers[n]? = r.workers[n]?.map Worker.shutdown
  kept : ∀ n, ¬ r.Expires now n → r'.workers[n]? = r.workers[n]?
  live : r'.live = r.live
  created : r'.created = r.created
  recycled : r'.recycled = r.recycled
  nextSequence : r'.nextSequence = r.nextSequence
  delay : r'.delay = r.delay
  startFailure : r'.startFailure = r.startFailure

variable {r r' : Registry} {u : String} {n now stopped : Nat}

theorem NoneDue.not_expires (h : r.NoneDue now) (n : Nat) : ¬ r.Expires now n := by
  rintro ⟨u, p, hp, -, hdue⟩
  have hlt := h.parked u p hp
  omega

theorem NoneDue.evicts_self (h : r.NoneDue now) : Evicts now r r where
  parked u := by
    cases hp : r.parked[u]? with
    | none => rfl
    | some p => rw [Option.filter_some_pos (by simpa using h.parked u p hp)]
  deadlines := (List.filter_eq_self.mpr fun x hx => by simpa using h.deadlines x hx).symm
  stopped n hn := absurd hn (h.not_expires n)
  kept _ _ := rfl
  live := rfl
  created := rfl
  recycled := rfl
  nextSequence := rfl
  delay := rfl
  startFailure := rfl

theorem Evicts.noneDue (h : Evicts now r r') : r'.NoneDue now where
  parked u p hp := by
    rw [h.parked, Option.filter_eq_some_iff] at hp
    simpa using hp.2
  deadlines x hx := by
    rw [h.deadlines] at hx
    simpa using (List.mem_filter.mp hx).2

namespace Consistent

/-- Deadlines are in order, so nothing is due if the first of them is not. -/
theorem noneDue (h : r.Consistent stopped) (hhead : ∀ x ∈ r.deadlines.head?, now < x.1.due) :
    r.NoneDue now where
  parked u p hp := h.agenda.lt_due hhead _ ((h.agenda.mem_iff p.deadline u).mpr ⟨p.worker, hp⟩)
  deadlines := h.agenda.lt_due hhead

/-- Once the first of the deadlines is met, the workers of the other documents are still due. -/
theorem expires_pop_iff (h : r.Consistent stopped) {d : Deadline}
    (rest : List (Deadline × String)) (hn : r.parked[u]? = some ⟨n, d⟩) (now m : Nat) :
    (r.pop u rest).Expires now m ↔ r.Expires now m ∧ n ≠ m := by
  have hparked (v : String) :
      (r.pop u rest).parked[v]? = if u = v then none else r.parked[v]? := by
    simp [pop_eq rest hn, Std.TreeMap.getElem?_erase]
  constructor
  · rintro ⟨v, p, hp, rfl, hdue⟩
    rw [hparked] at hp
    split_ifs at hp with huv
    refine ⟨⟨v, p, hp, rfl, hdue⟩, fun hworker => huv ?_⟩
    exact h.staffed.eq_of_stores (.inr ⟨d, hn⟩) (.inr ⟨p.deadline, hworker ▸ hp⟩)
  · rintro ⟨⟨v, p, hp, rfl, hdue⟩, hne⟩
    refine ⟨v, p, ?_, rfl, hdue⟩
    rw [hparked, if_neg]
    · exact hp
    · rintro rfl
      rw [hn] at hp
      cases hp
      exact hne rfl

/-- What is due behind the first deadline goes with it. -/
theorem evicts_of_pop (h : r.Consistent stopped) {d : Deadline} {rest : List (Deadline × String)}
    (hds : r.deadlines = (d, u) :: rest) (hd : d.due ≤ now) (h' : Evicts now (r.pop u rest) r') :
    Evicts now r r' := by
  obtain ⟨n, hn⟩ := (h.agenda.mem_iff d u).mp (by simp [hds])
  have hexpires := h.expires_pop_iff rest hn now
  have hpop := pop_eq rest hn
  have hworkers (m : Nat) : (r.pop u rest).workers[m]? =
      r.workers[m]?.map fun w => if n = m then w.shutdown else w := by
    rw [hpop]
    exact getElem?_update r n Worker.shutdown m
  refine ⟨fun v => ?_, ?_, fun m hm => ?_, fun m hm => ?_, h'.live.trans (by rw [hpop]; rfl),
    h'.created.trans (by rw [hpop]; rfl), h'.recycled.trans (by rw [hpop]; rfl),
    h'.nextSequence.trans (by rw [hpop]; rfl), h'.delay.trans (by rw [hpop]; rfl),
    h'.startFailure.trans (by rw [hpop]; rfl)⟩
  · rw [h'.parked, hpop]
    by_cases huv : u = v
    · subst huv
      simp [hn, Option.filter, hd]
    · simp [Std.TreeMap.getElem?_erase, huv]
  · rw [h'.deadlines, deadlines_pop, hds, List.filter_cons_of_neg (by simpa using hd)]
  · by_cases hnm : n = m
    · rw [h'.kept m (by simp [hexpires, hnm]), hworkers]
      simp [hnm]
    · rw [h'.stopped m ((hexpires m).mpr ⟨hm, hnm⟩), hworkers]
      simp [hnm]
  · have hnm : n ≠ m := fun hnm => hm ⟨u, ⟨n, d⟩, hn, hnm, hd⟩
    rw [h'.kept m (by simp [hexpires, hm]), hworkers]
    simp [hnm]

theorem cleanUp_evicts (h : r.Consistent stopped) (now : Nat) : Evicts now r (r.cleanUp now) := by
  induction hds : r.deadlines generalizing r with
  | nil =>
    have hhead : ∀ x ∈ r.deadlines.head?, now < x.1.due := by simp [hds]
    rw [cleanUp_eq_self hhead]
    exact (h.noneDue hhead).evicts_self
  | cons first rest ih =>
    obtain ⟨d, u⟩ := first
    by_cases hd : d.due ≤ now
    · rw [cleanUp_cons hds hd]
      exact h.evicts_of_pop hds hd (ih (h.pop hds) (deadlines_pop rest))
    · have hhead : ∀ x ∈ r.deadlines.head?, now < x.1.due := by simpa [hds] using hd
      rw [cleanUp_eq_self hhead]
      exact (h.noneDue hhead).evicts_self

/-- Every worker started is accounted for before and after, so those gone are those evicted. -/
theorem evicted_cleanUp (h : r.Consistent stopped) (now : Nat) :
    (r.cleanUp now).evicted = r.evicted + r.parked.toList.countP fun x => x.2.deadline.due ≤ now := by
  have hevicts := h.cleanUp_evicts now
  have hequiv : (r.cleanUp now).parked.Equiv
      (r.parked.filter fun _ p => now < p.deadline.due) := by
    refine .of_forall_constGet?_eq fun u => ?_
    rw [Std.TreeMap.getElem?_filter', hevicts.parked]
  have hsize : (r.cleanUp now).parked.size =
      r.parked.toList.countP fun x => ¬ decide (x.2.deadline.due ≤ now) = true := by
    rw [hequiv.size_eq, ← Std.TreeMap.length_toList, Std.TreeMap.toList_filter,
      ← List.countP_eq_length_filter]
    exact List.countP_congr fun x _ => by simp
  have htotal := List.length_eq_countP_add_countP (fun x => decide (x.2.deadline.due ≤ now))
    (l := r.parked.toList)
  rw [Std.TreeMap.length_toList, ← hsize] at htotal
  have hbefore := h.created_eq
  have hafter := (h.cleanUp now).created_eq
  rw [hevicts.created, hevicts.live] at hafter
  omega

end Consistent

theorem NoneDue.of_acquire (h : (r.cleanUp now).NoneDue now) (u : String) :
    (r.acquire now u).2.NoneDue now := by
  rcases acquire_cases r now u with ⟨n, _, heq⟩ | ⟨p, _, hp, heq⟩ | ⟨cause, _, _, _, heq⟩ |
    ⟨_, _, heq⟩
  all_goals rw [heq]
  · exact h
  · refine ⟨fun v q hq => ?_, fun x hx => h.deadlines x (List.mem_of_mem_filter hx)⟩
    simp only [reopened, Std.TreeMap.getElem?_erase] at hq
    split_ifs at hq
    exact h.parked v q hq
  · exact h
  · exact ⟨h.parked, h.deadlines⟩

/-- Forgetting what is due takes away the closed documents whose deadline has come and no others,
tells their workers to stop and no others, counts them, and leaves nothing to do at the same time.
Opening a document and asking for one forget what is due as well. -/
theorem Reachable.forgets_due {delay : Nat} (h : Reachable delay stopped r) (now : Nat) :
    Evicts now r (r.cleanUp now) ∧
      (∀ n, r.Expires now n → ∃ w, r.workers[n]? = some w ∧ w.running = true) ∧
      (r.cleanUp now).evicted =
        r.evicted + r.parked.toList.countP (fun x => x.2.deadline.due ≤ now) ∧
      (r.cleanUp now).NoneDue now ∧
      (∀ u, (r.acquire now u).2.NoneDue now ∧ (r.find now u).2.NoneDue now) ∧
      (r.cleanUp now).cleanUp now = r.cleanUp now := by
  have hr := h.consistent
  have hevicts := hr.cleanUp_evicts now
  have hnone := hevicts.noneDue
  refine ⟨hevicts, ?_, hr.evicted_cleanUp now, hnone, fun u => ⟨hnone.of_acquire u, hnone⟩, ?_⟩
  · rintro n ⟨u, p, hp, rfl, -⟩
    have hstores : r.Stores u p.worker := .inr ⟨p.deadline, hp⟩
    obtain ⟨w, hw, -⟩ := hr.staffed.own u p.worker hstores
    exact ⟨w, hw, (hr.staffed.running_iff _ w hw).mpr ⟨u, hstores⟩⟩
  · exact cleanUp_eq_self fun x hx => hnone.deadlines x (List.mem_of_mem_head? hx)

/-- Of two closed documents the one that is due now goes, and its worker with it. -/
theorem forgets_at_deadline :
    ∃ r, Reachable 10 0 r ∧ r.Expires 11 0 ∧ Evicts 11 r (r.cleanUp 11) ∧
      (r.cleanUp 11).parked["logo:b"]? = some ⟨1, ⟨12, 1⟩⟩ ∧ (r.cleanUp 11).evicted = 1 ∧
      (r.cleanUp 11).NoneDue 11 ∧ (r.cleanUp 11).cleanUp 11 = r.cleanUp 11 := by
  have hnew : Reachable 10 0 { delay := 10 } := .new
  have h := (((hnew.acquire 0 "logo:a").acquire 0 "logo:b").close 1 "logo:a").close 2 "logo:b"
  obtain ⟨hevicts, _, hevicted, hnone, _, hself⟩ := h.forgets_due 11
  exact ⟨_, h, ⟨"logo:a", ⟨0, ⟨11, 0⟩⟩, by decide +kernel, rfl, by decide⟩, hevicts,
    (hevicts.parked "logo:b").trans (by decide +kernel), hevicted.trans (by decide +kernel), hnone,
    hself⟩

end LogoServer.Registry
