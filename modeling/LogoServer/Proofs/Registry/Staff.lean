import LogoServer.Worker.Basic
import Mathlib.Tactic

/-! The workers of documents: each document has one of its own, and just those that some document
has are running. -/
namespace LogoServer

/-- Changing one entry of an array changes a count by that entry alone. -/
theorem countP_modify {α : Type} {p : α → Bool} {xs : Array α} {i : Nat} {a : α} (f : α → α)
    (h : xs[i]? = some a) :
    (xs.modify i f).countP p + (if p a = true then 1 else 0) =
      xs.countP p + if p (f a) = true then 1 else 0 := by
  obtain ⟨hi, rfl⟩ := Array.getElem?_eq_some_iff.mp h
  have hset : xs.modify i f = xs.set i (f xs[i]) := by
    apply Array.ext
    · rw [Array.size_modify, Array.size_set]
    · intro j _ _
      rw [Array.getElem_modify, Array.getElem_set]
      split_ifs with hij
      · subst hij
        rfl
      · rfl
  have hle : (if p xs[i] = true then 1 else 0) ≤ xs.countP p := by
    split_ifs with hp
    · exact Array.countP_pos_iff.mpr ⟨xs[i], Array.getElem_mem hi, hp⟩
    · exact Nat.zero_le _
  rw [hset, Array.countP_set hi]
  omega

/-- Behind a change of one entry stands the changed one, or one that was there before. -/
theorem eq_or_of_getElem?_modify {α : Type} {xs : Array α} {i j : Nat} {a b : α} {f : α → α}
    (h : xs[i]? = some a) (hb : (xs.modify i f)[j]? = some b) :
    i = j ∧ b = f a ∨ i ≠ j ∧ xs[j]? = some b := by
  rw [Array.getElem?_modify] at hb
  split_ifs at hb with hij
  · subst hij
    rw [h] at hb
    exact .inl ⟨rfl, (Option.some.inj hb).symm⟩
  · exact .inr ⟨hij, hb⟩

namespace Registry

/-- The workers started so far, against the documents that have one: `stores u n` says that the
document `u` has the worker `n`, and there are `total` such documents. -/
structure Staffed (workers : Array Worker) (stores : String → Nat → Prop) (total : Nat) :
    Prop where
  own : ∀ u n, stores u n → ∃ w, workers[n]? = some w ∧ w.uri = u
  single : ∀ u n m, stores u n → stores u m → n = m
  running_iff : ∀ n w, workers[n]? = some w → (w.running = true ↔ ∃ u, stores u n)
  count : workers.countP Worker.running = total

namespace Staffed

variable {workers : Array Worker} {stores stores' : String → Nat → Prop} {total : Nat}
  {u v : String} {n : Nat}

theorem nobody : Staffed #[] (fun _ _ => False) 0 where
  own := by simp
  single := by simp
  running_iff := by simp
  count := rfl

theorem eq_of_stores (h : Staffed workers stores total) (hu : stores u n) (hv : stores v n) :
    u = v := by
  obtain ⟨w, hw, rfl⟩ := h.own u n hu
  obtain ⟨w', hw', rfl⟩ := h.own v n hv
  rw [hw] at hw'
  cases hw'
  rfl

theorem congr (h : Staffed workers stores total) (hstores : ∀ v m, stores' v m ↔ stores v m) :
    Staffed workers stores' total := by
  have heq : stores' = stores := by
    funext v m
    exact propext (hstores v m)
  rw [heq]
  exact h

/-- A document without a worker gets a new one. -/
theorem hire (h : Staffed workers stores total) (hu : ∀ m, ¬ stores u m) (number : Nat) :
    Staffed (workers.push (.start number u)) (fun v m => stores v m ∨ u = v ∧ m = workers.size)
      (total + 1) := by
  have hlt : ∀ v m, stores v m → m < workers.size := by
    intro v m hv
    obtain ⟨w, hw, _⟩ := h.own v m hv
    exact (Array.getElem?_eq_some_iff.mp hw).1
  refine ⟨?_, ?_, ?_, ?_⟩
  · rintro v m (hv | ⟨rfl, rfl⟩)
    · obtain ⟨w, hw, huri⟩ := h.own v m hv
      have hm := hlt v m hv
      refine ⟨w, ?_, huri⟩
      rw [Array.getElem?_push, if_neg (by omega)]
      exact hw
    · exact ⟨.start number u, by simp, rfl⟩
  · rintro v m k (hm | ⟨hv, hm⟩) (hk | ⟨hv', hk⟩)
    · exact h.single v m k hm hk
    · exact absurd (hv' ▸ hm) (hu m)
    · exact absurd (hv ▸ hk) (hu k)
    · rw [hm, hk]
  · intro m w hw
    rw [Array.getElem?_push] at hw
    split_ifs at hw with hm
    · cases hw
      exact ⟨fun _ => ⟨u, .inr ⟨rfl, hm⟩⟩, fun _ => rfl⟩
    · rw [h.running_iff m w hw]
      constructor
      · rintro ⟨v, hv⟩
        exact ⟨v, .inl hv⟩
      · rintro ⟨v, hv | ⟨_, hm'⟩⟩
        · exact ⟨v, hv⟩
        · exact absurd hm' hm
  · rw [Array.countP_push, h.count]
    rfl

/-- A worker goes on without being told to stop. -/
theorem goOn (h : Staffed workers stores total) (n : Nat) {change : Worker → Worker}
    (hchange : ∀ w, workers[n]? = some w →
      (change w).running = w.running ∧ (change w).uri = w.uri) :
    Staffed (workers.modify n change) stores total := by
  cases hn : workers[n]? with
  | none =>
    have hsame : workers.modify n change = workers := by
      apply Array.ext_getElem?
      intro m
      rw [Array.getElem?_modify]
      split_ifs with hnm
      · rw [← hnm, hn]
        rfl
      · rfl
    rw [hsame]
    exact h
  | some w =>
    obtain ⟨hrunning, huri⟩ := hchange w hn
    refine ⟨fun v m hv => ?_, h.single, fun m w' hw' => ?_, ?_⟩
    · obtain ⟨w', hw', hv'⟩ := h.own v m hv
      rw [Array.getElem?_modify]
      split_ifs with hnm
      · subst hnm
        rw [hn] at hw'
        cases hw'
        exact ⟨change w, by rw [hn]; rfl, huri.trans hv'⟩
      · exact ⟨w', hw', hv'⟩
    · obtain ⟨rfl, rfl⟩ | ⟨_, hw⟩ := eq_or_of_getElem?_modify hn hw'
      · rw [hrunning]
        exact h.running_iff n w hn
      · exact h.running_iff m w' hw
    · have hcount := countP_modify (p := Worker.running) change hn
      rw [hrunning, h.count] at hcount
      exact Nat.add_right_cancel hcount

/-- A document is forgotten and its worker told to stop. -/
theorem dismiss (h : Staffed workers stores (total + 1)) (hu : stores u n) :
    Staffed (workers.modify n Worker.shutdown) (fun v m => stores v m ∧ u ≠ v) total := by
  obtain ⟨w, hn, huri⟩ := h.own u n hu
  have hrunning : w.running = true := (h.running_iff n w hn).mpr ⟨u, hu⟩
  refine ⟨fun v m hv => ?_, fun v m k hm hk => h.single v m k hm.1 hk.1, fun m w' hw' => ?_, ?_⟩
  · obtain ⟨w', hw', hv'⟩ := h.own v m hv.1
    have hnm : n ≠ m := by
      rintro rfl
      exact hv.2 (h.eq_of_stores hu hv.1)
    rw [Array.getElem?_modify, if_neg hnm]
    exact ⟨w', hw', hv'⟩
  · obtain ⟨rfl, rfl⟩ | ⟨hnm, hw⟩ := eq_or_of_getElem?_modify hn hw'
    · constructor
      · intro hfalse
        cases hfalse
      · rintro ⟨v, hv, hne⟩
        exact absurd (h.eq_of_stores hu hv) hne
    · rw [h.running_iff m w' hw]
      constructor
      · rintro ⟨v, hv⟩
        refine ⟨v, hv, ?_⟩
        rintro rfl
        exact hnm (h.single u n m hu hv)
      · rintro ⟨v, hv, _⟩
        exact ⟨v, hv⟩
  · have hcount := countP_modify (p := Worker.running) Worker.shutdown hn
    have hstopped : w.shutdown.running = false := rfl
    rw [hrunning, hstopped, h.count] at hcount
    simpa using hcount

end Staffed

end Registry

end LogoServer
