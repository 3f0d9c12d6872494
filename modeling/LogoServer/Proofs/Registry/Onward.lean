import LogoServer.Proofs.Registry.Operations
import LogoServer.Proofs.Worker.Moves
import Mathlib.Tactic

/-! How the workers of a registry go on through everything that is done to it: each keeps its
number, and new ones come behind. -/
namespace LogoServer.Registry

/-- Each worker goes on under its number, and any other worker was started meanwhile. -/
structure Onward (before after : Array Worker) : Prop where
  goesOn : ∀ (n : Nat) (w : Worker), before[n]? = some w →
    ∃ w', after[n]? = some w' ∧ w.Moves w'
  stems : ∀ (n : Nat) (w' : Worker), after[n]? = some w' →
    ∃ w, (before[n]? = some w ∨ ∃ number uri, w = Worker.start number uri) ∧ w.Moves w'

namespace Onward

variable {a b c : Array Worker}

theorem refl (a : Array Worker) : Onward a a :=
  ⟨fun _ w hw => ⟨w, hw, .refl⟩, fun _ w hw => ⟨w, .inl hw, .refl⟩⟩

theorem trans (hab : Onward a b) (hbc : Onward b c) : Onward a c := by
  refine ⟨fun n w hw => ?_, fun n w'' hw'' => ?_⟩
  · obtain ⟨w', hw', hmoves⟩ := hab.goesOn n w hw
    obtain ⟨w'', hw'', hmoves'⟩ := hbc.goesOn n w' hw'
    exact ⟨w'', hw'', hmoves.trans hmoves'⟩
  · obtain ⟨w', hw', hmoves'⟩ := hbc.stems n w'' hw''
    rcases hw' with hw' | hstart
    · obtain ⟨w, hw, hmoves⟩ := hab.stems n w' hw'
      exact ⟨w, hw, hmoves.trans hmoves'⟩
    · exact ⟨w', .inr hstart, hmoves'⟩

theorem modify (n : Nat) {change : Worker → Worker}
    (hchange : ∀ w, a[n]? = some w → w.Moves (change w)) : Onward a (a.modify n change) := by
  have hmodify : ∀ (m : Nat) (w : Worker), a[m]? = some w →
      ∃ w', (a.modify n change)[m]? = some w' ∧ w.Moves w' := by
    intro m w hw
    rw [Array.getElem?_modify]
    split_ifs with hnm
    · subst hnm
      exact ⟨change w, by rw [hw]; rfl, hchange w hw⟩
    · exact ⟨w, hw, .refl⟩
  refine ⟨hmodify, fun m w' hw' => ?_⟩
  have hlt : m < a.size := by simpa using (Array.getElem?_eq_some_iff.mp hw').1
  obtain ⟨w₁, hw₁, hmoves⟩ := hmodify m a[m] (Array.getElem?_eq_getElem hlt)
  rw [hw'] at hw₁
  cases hw₁
  exact ⟨a[m], .inl (Array.getElem?_eq_getElem hlt), hmoves⟩

theorem push (a : Array Worker) (number : Nat) (uri : String) :
    Onward a (a.push (.start number uri)) := by
  refine ⟨fun n w hw => ?_, fun n w' hw' => ?_⟩
  · have hlt := (Array.getElem?_eq_some_iff.mp hw).1
    refine ⟨w, ?_, .refl⟩
    rw [Array.getElem?_push, if_neg (by omega)]
    exact hw
  · rw [Array.getElem?_push] at hw'
    split_ifs at hw'
    · cases hw'
      exact ⟨_, .inr ⟨number, uri, rfl⟩, .refl⟩
    · exact ⟨w', .inl hw', .refl⟩

theorem ticketed (h : Onward a b) (ha : ∀ (n : Nat) (w : Worker), a[n]? = some w → w.Ticketed) :
    ∀ (n : Nat) (w : Worker), b[n]? = some w → w.Ticketed := by
  intro n w' hw'
  obtain ⟨w, hw | ⟨number, uri, rfl⟩, hmoves⟩ := h.stems n w' hw'
  · exact hmoves.ticketed (ha n w hw)
  · exact hmoves.ticketed (Worker.ticketed_start number uri)

end Onward

variable {r r' : Registry}

/-! ### What is done to a registry -/

theorem pop_onward (r : Registry) (u : String) (rest : List (Deadline × String)) :
    Onward r.workers (r.pop u rest).workers ∧ (r.pop u rest).live = r.live := by
  unfold pop
  rw [evict_withDeadlines]
  unfold evict
  cases r.parked[u]? with
  | none => exact ⟨.refl _, rfl⟩
  | some p => exact ⟨.modify p.worker fun w _ => .shutdown .refl, rfl⟩

theorem cleanUp_onward (r : Registry) (now : Nat) :
    Onward r.workers (r.cleanUp now).workers ∧ (r.cleanUp now).live = r.live := by
  refine cleanUp_induction
    (motive := fun r' => Onward r.workers r'.workers ∧ r'.live = r.live) ?_ r ⟨.refl _, rfl⟩
  intro r₁ d u rest ⟨honward, hlive⟩ _ _
  obtain ⟨honward', hlive'⟩ := pop_onward r₁ u rest
  exact ⟨honward.trans honward', hlive'.trans hlive⟩

theorem acquire_onward (r : Registry) (now : Nat) (u : String) :
    Onward r.workers (r.acquire now u).2.workers ∧
      ∀ v : String, u ≠ v → (r.acquire now u).2.live[v]? = r.live[v]? := by
  obtain ⟨honward, hlive⟩ := cleanUp_onward r now
  rcases acquire_cases r now u with ⟨n, _, heq⟩ | ⟨p, _, hp, heq⟩ | ⟨cause, _, _, _, heq⟩ |
    ⟨_, _, heq⟩
  all_goals rw [heq]
  · exact ⟨honward, fun v _ => by rw [hlive]⟩
  · refine ⟨honward, fun v huv => ?_⟩
    simp [reopened, Std.TreeMap.getElem?_insert, huv, hlive]
  · exact ⟨honward, fun v _ => by rw [hlive]⟩
  · refine ⟨honward.trans (.push _ _ u), fun v huv => ?_⟩
    simp [launched, Std.TreeMap.getElem?_insert, huv, hlive]

theorem close_onward (r : Registry) (now : Nat) (u : String) :
    Onward r.workers (r.close now u).2.workers ∧
      ∀ v : String, u ≠ v → (r.close now u).2.live[v]? = r.live[v]? := by
  obtain ⟨honward, hlive⟩ := cleanUp_onward r now
  rcases close_cases r now u with ⟨_, heq⟩ | ⟨n, hn, heq⟩
  all_goals rw [heq]
  · exact ⟨honward, fun v _ => by rw [hlive]⟩
  · refine ⟨honward, fun v huv => ?_⟩
    simp [closedAt, Std.TreeMap.getElem?_erase, huv, hlive]

theorem live_close (r : Registry) (now : Nat) (u : String) :
    (r.close now u).2.live[u]? = none := by
  rcases close_cases r now u with ⟨hnone, heq⟩ | ⟨n, _, heq⟩
  all_goals rw [heq]
  · exact hnone
  · simp [closedAt]

theorem shutdownAll_onward (r : Registry) : Onward r.workers r.shutdownAll.workers := by
  rw [shutdownAll_eq]
  have hdismissed : ∀ (numbers : List Nat) (a : Array Worker), Onward a (dismissed numbers a) := by
    intro numbers
    induction numbers with
    | nil => exact .refl
    | cons n numbers ih =>
      intro a
      exact (Onward.modify n fun w _ => .shutdown .refl).trans (ih _)
  exact hdismissed r.stored r.workers

/-- One worker is put in the place of what it was. -/
theorem replace_onward {n : Nat} {w w' : Worker} (hw : r.workers[n]? = some w)
    (hmoves : w.Moves w') : Onward r.workers (r.update n fun _ => w').workers := by
  change Onward r.workers (r.workers.modify n fun _ => w')
  apply Onward.modify
  intro w₀ hw₀
  rw [hw] at hw₀
  cases hw₀
  exact hmoves

theorem submit_onward {n ticket : Nat} {u : String} {request : Request}
    (h : r.submit n u request = .ok (ticket, r')) :
    Onward r.workers r'.workers ∧ r'.live = r.live := by
  obtain ⟨w, w', hw, hsubmit, rfl⟩ := submit_eq_ok h
  exact ⟨replace_onward hw (.submit .refl hsubmit), rfl⟩

/-- A text that is handed in will be read under its ticket. -/
theorem submit_entrusts {n ticket : Nat} {u text : String}
    (hr : ∀ (n : Nat) (w : Worker), r.workers[n]? = some w → w.Ticketed)
    (h : r.submit n u (.setText text) = .ok (ticket, r')) :
    ∃ w', r'.workers[n]? = some w' ∧ w'.Entrusted ticket text ∧
      ∃ x ∈ w'.foreseen.2, x.1.ticket = ticket := by
  obtain ⟨w, w', hw, hsubmit, rfl⟩ := submit_eq_ok h
  have hw' : (r.update n fun _ => w').workers[n]? = some w' := by
    simp [getElem?_update, hw]
  exact ⟨w', hw', Worker.entrusted_submit (hr n w hw) hsubmit⟩

theorem await_eq {n : Nat} {w : Worker} (u : String) (ticket : Nat) (hw : r.workers[n]? = some w) :
    r.await n u ticket = (w.settle.result ticket, r.update n fun _ => w.settle) := by
  unfold await
  rw [hw]

theorem await_onward (r : Registry) (n : Nat) (u : String) (ticket : Nat) :
    Onward r.workers (r.await n u ticket).2.workers ∧ (r.await n u ticket).2.live = r.live := by
  cases hn : r.workers[n]? with
  | none =>
    unfold await
    rw [hn]
    exact ⟨.refl _, rfl⟩
  | some w =>
    rw [await_eq u ticket hn]
    exact ⟨replace_onward hn (.settle w), rfl⟩

end LogoServer.Registry
