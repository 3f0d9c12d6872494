import LogoServer.Registry
import LogoServer.Proofs.Text.Order
import Mathlib.Tactic

/-! The deadlines of closed documents: one for each of them, all different, in the order in which
they fall due. -/
namespace LogoServer

namespace Deadline

theorem not_before_self (d : Deadline) : d.before d = false := by
  simp [before]

theorem before_trans {a b c : Deadline} (hab : a.before b = true) (hbc : b.before c = true) :
    a.before c = true := by
  simp only [before, Bool.or_eq_true, Bool.and_eq_true, decide_eq_true_eq, beq_iff_eq] at *
  omega

theorem before_of_not_before {a b : Deadline} (h : a.before b = false)
    (hsequence : b.sequence < a.sequence) : b.before a = true := by
  simp only [before, Bool.or_eq_false_iff, Bool.and_eq_false_iff, decide_eq_false_iff_not,
    beq_eq_false_iff_ne] at h
  simp only [before, Bool.or_eq_true, Bool.and_eq_true, decide_eq_true_eq, beq_iff_eq]
  omega

theorem due_le_of_before {a b : Deadline} (h : a.before b = true) : a.due ≤ b.due := by
  simp only [before, Bool.or_eq_true, Bool.and_eq_true, decide_eq_true_eq, beq_iff_eq] at h
  omega

end Deadline

namespace Registry

theorem mem_schedule {deadline : Deadline} {uri : String} {deadlines : List (Deadline × String)}
    {x : Deadline × String} :
    x ∈ schedule deadline uri deadlines ↔ x = (deadline, uri) ∨ x ∈ deadlines := by
  induction deadlines with
  | nil => simp [schedule]
  | cons first rest ih =>
    unfold schedule
    split
    · simp
    · simp only [List.mem_cons, ih]
      tauto

/-- A deadline is put in its place if it was set after all others. -/
theorem schedule_pairwise {deadline : Deadline} {uri : String}
    {deadlines : List (Deadline × String)}
    (hsorted : deadlines.Pairwise fun a b => a.1.before b.1 = true)
    (hlate : ∀ x ∈ deadlines, x.1.sequence < deadline.sequence) :
    (schedule deadline uri deadlines).Pairwise fun a b => a.1.before b.1 = true := by
  induction deadlines with
  | nil => simp [schedule]
  | cons first rest ih =>
    obtain ⟨hfirst, hrest⟩ := List.pairwise_cons.mp hsorted
    obtain ⟨hlater, hlaters⟩ := List.forall_mem_cons.mp hlate
    unfold schedule
    split
    · rename_i hbefore
      refine List.pairwise_cons.mpr ⟨fun x hx => ?_, hsorted⟩
      rcases List.mem_cons.mp hx with rfl | hx
      · exact hbefore
      · exact Deadline.before_trans hbefore (hfirst x hx)
    · rename_i hbefore
      refine List.pairwise_cons.mpr ⟨fun x hx => ?_, ih hrest hlaters⟩
      rcases mem_schedule.mp hx with rfl | hx
      · exact Deadline.before_of_not_before (by simpa using hbefore) hlater
      · exact hfirst x hx

/-- The deadlines are those of the closed documents, in order, and later ones will be greater. -/
structure Agenda (parked : String → Option Parked) (deadlines : List (Deadline × String))
    (next : Nat) : Prop where
  sorted : deadlines.Pairwise fun a b => a.1.before b.1 = true
  mem_iff : ∀ d u, (d, u) ∈ deadlines ↔ ∃ n, parked u = some ⟨n, d⟩
  fresh : ∀ x ∈ deadlines, x.1.sequence < next

namespace Agenda

variable {parked : String → Option Parked} {deadlines deadlines' : List (Deadline × String)}
  {next : Nat} {u : String}

theorem empty (next : Nat) : Agenda (fun _ => none) [] next :=
  ⟨.nil, by simp, by simp⟩

theorem eq_of_mem (h : Agenda parked deadlines next) {d : Deadline} {u v : String}
    (hu : (d, u) ∈ deadlines) (hv : (d, v) ∈ deadlines) : u = v := by
  rcases eq_or_of_pairwise h.sorted hu hv with heq | hbefore | hbefore
  · exact (Prod.mk.inj heq).2
  · simp [Deadline.not_before_self] at hbefore
  · simp [Deadline.not_before_self] at hbefore

/-- Deadlines are in order, so none of them has passed if the first has not. -/
theorem lt_due {now : Nat} (h : Agenda parked deadlines next)
    (hhead : ∀ x ∈ deadlines.head?, now < x.1.due) : ∀ x ∈ deadlines, now < x.1.due := by
  cases hds : deadlines with
  | nil => simp
  | cons first rest =>
    have hfirst : now < first.1.due := hhead first (by simp [hds])
    have hsorted := h.sorted
    rw [hds] at hsorted
    intro x hx
    rcases List.mem_cons.mp hx with rfl | hx
    · exact hfirst
    · have hle := Deadline.due_le_of_before ((List.pairwise_cons.mp hsorted).1 x hx)
      omega

/-- A document that is no longer closed takes its deadline along. -/
theorem drop (h : Agenda parked deadlines next) (hsublist : deadlines'.Sublist deadlines)
    (hmem : ∀ d v, (d, v) ∈ deadlines' ↔ (d, v) ∈ deadlines ∧ u ≠ v) :
    Agenda (fun v => if u = v then none else parked v) deadlines' next := by
  refine ⟨h.sorted.sublist hsublist, fun d v => ?_, fun x hx => h.fresh x (hsublist.subset hx)⟩
  rw [hmem, h.mem_iff]
  by_cases huv : u = v
  · simp [huv]
  · simp [huv]

theorem mem_filter_iff (h : Agenda parked deadlines next) {n : Nat} {d : Deadline}
    (hu : parked u = some ⟨n, d⟩) (e : Deadline) (v : String) :
    (e, v) ∈ deadlines.filter (fun x => x.1 ≠ d) ↔ (e, v) ∈ deadlines ∧ u ≠ v := by
  have hd : (d, u) ∈ deadlines := (h.mem_iff d u).mpr ⟨n, hu⟩
  rw [List.mem_filter, decide_eq_true_eq]
  refine and_congr_right fun hv => ?_
  constructor
  · rintro hne rfl
    obtain ⟨m, hm⟩ := (h.mem_iff e u).mp hv
    rw [hu] at hm
    cases hm
    exact hne rfl
  · rintro hne rfl
    exact hne (h.eq_of_mem hd hv)

/-- The first deadline belongs to no other document. -/
theorem mem_tail_iff {d : Deadline} {rest : List (Deadline × String)}
    (h : Agenda parked ((d, u) :: rest) next) (e : Deadline) (v : String) :
    (e, v) ∈ rest ↔ (e, v) ∈ (d, u) :: rest ∧ u ≠ v := by
  obtain ⟨hfirst, _⟩ := List.pairwise_cons.mp h.sorted
  constructor
  · intro hv
    refine ⟨List.mem_cons_of_mem _ hv, ?_⟩
    rintro rfl
    obtain ⟨n, hn⟩ := (h.mem_iff d u).mp List.mem_cons_self
    obtain ⟨m, hm⟩ := (h.mem_iff e u).mp (List.mem_cons_of_mem _ hv)
    rw [hn] at hm
    cases hm
    have hbefore := hfirst _ hv
    simp [Deadline.not_before_self] at hbefore
  · rintro ⟨hv, hne⟩
    rcases List.mem_cons.mp hv with heq | hv
    · exact absurd (Prod.mk.inj heq).2.symm hne
    · exact hv

/-- A document that is closed gets the last of the deadlines set so far. -/
theorem add (h : Agenda parked deadlines next) (hu : parked u = none) (n due : Nat) :
    Agenda (fun v => if u = v then some ⟨n, ⟨due, next⟩⟩ else parked v)
      (schedule ⟨due, next⟩ u deadlines) (next + 1) := by
  refine ⟨schedule_pairwise h.sorted h.fresh, fun d v => ?_, fun x hx => ?_⟩
  · rw [mem_schedule, h.mem_iff]
    by_cases huv : u = v
    · subst huv
      simp [hu, eq_comm]
    · simp [huv, Ne.symm huv]
  · rcases mem_schedule.mp hx with rfl | hx
    · exact Nat.lt_succ_self next
    · exact Nat.lt_succ_of_lt (h.fresh x hx)

end Agenda

end Registry

end LogoServer
