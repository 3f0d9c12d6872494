import LogoServer.Text.Position
import Mathlib.Tactic

/-! Reading order on the places of a text, and how far a stretch of text carries a place. -/
namespace LogoServer

/-- Two members of a list in order are the same or one comes before the other. -/
theorem eq_or_of_pairwise {α : Type} {R : α → α → Prop} {as : List α} (h : as.Pairwise R) {a b : α}
    (ha : a ∈ as) (hb : b ∈ as) : a = b ∨ R a b ∨ R b a := by
  by_cases hab : a = b
  · exact .inl hab
  · have : Std.Symm fun x y => R x y ∨ R y x := ⟨fun _ _ => Or.symm⟩
    exact .inr ((h.imp Or.inl : as.Pairwise fun x y => R x y ∨ R y x).forall ha hb hab)

namespace Position

def Before (p q : Position) : Prop :=
  p.line < q.line ∨ p.line = q.line ∧ p.column < q.column

theorem notAfter_iff (p q : Position) :
    p.notAfter q = true ↔ p.line < q.line ∨ p.line = q.line ∧ p.column ≤ q.column := by
  simp [notAfter]

@[simp] theorem notAfter_refl (p : Position) : p.notAfter p = true := by
  simp [notAfter]

theorem notAfter_trans {p q r : Position} (hpq : p.notAfter q = true) (hqr : q.notAfter r = true) :
    p.notAfter r = true := by
  rw [notAfter_iff] at *
  omega

theorem notAfter_of_before {p q : Position} (h : p.Before q) : p.notAfter q = true := by
  rw [notAfter_iff]
  unfold Before at h
  omega

/-- Two places are always ordered one way or the other. -/
theorem not_notAfter_iff (p q : Position) : p.notAfter q = false ↔ q.Before p := by
  rw [← Bool.not_eq_true, notAfter_iff, Before]
  omega

theorem notAfter_total (p q : Position) : (p.notAfter q || q.notAfter p) = true := by
  cases h : p.notAfter q with
  | true => rfl
  | false => exact notAfter_of_before ((not_notAfter_iff p q).mp h)

theorem not_before_self (p : Position) : ¬ p.Before p := by
  unfold Before
  omega

theorem Before.trans_notAfter {p q r : Position} (hpq : p.Before q) (hqr : q.notAfter r = true) :
    p.Before r := by
  rw [notAfter_iff] at hqr
  unfold Before at *
  omega

theorem before_or_eq_of_notAfter {p q : Position} (h : p.notAfter q = true) :
    p.Before q ∨ p = q := by
  rw [notAfter_iff] at h
  unfold Before
  by_cases hpq : p.line = q.line ∧ p.column = q.column
  · obtain ⟨hline, hcolumn⟩ := hpq
    right
    cases p
    cases q
    simp_all
  · omega

theorem before_advance (p : Position) (c : Char) : p.Before (p.advance c) := by
  unfold Before advance
  split_ifs
  · left
    simp
  · right
    simp

theorem notAfter_advanceOver (p : Position) (text : List Char) :
    p.notAfter (p.advanceOver text) = true := by
  induction text generalizing p with
  | nil => simp
  | cons c text ih => exact notAfter_trans (notAfter_of_before (before_advance p c)) (ih _)

theorem before_advanceOver (p : Position) {text : List Char} (h : text ≠ []) :
    p.Before (p.advanceOver text) := by
  cases text with
  | nil => exact absurd rfl h
  | cons c text => exact (before_advance p c).trans_notAfter (notAfter_advanceOver _ text)

/-- A stretch without a line feed stays on its line. -/
theorem advanceOver_of_unbroken (p : Position) {text : List Char} (h : '\n' ∉ text) :
    p.advanceOver text = ⟨p.line, p.column + text.length⟩ := by
  induction text generalizing p with
  | nil => rfl
  | cons c text ih =>
    have hc : c ≠ '\n' := fun he => h (by simp [he])
    have ht : '\n' ∉ text := fun hm => h (List.mem_cons_of_mem _ hm)
    rw [advanceOver_cons, ih _ ht, advance, if_neg hc, List.length_cons]
    congr 1
    change p.column + 1 + text.length = p.column + (text.length + 1)
    omega

/-- Neither coordinate grows by more than the number of characters read. -/
theorem advanceOver_le (p : Position) (text : List Char) :
    (p.advanceOver text).line ≤ p.line + text.length ∧
      (p.advanceOver text).column ≤ p.column + text.length := by
  induction text generalizing p with
  | nil => simp
  | cons c text ih =>
    obtain ⟨hl, hc⟩ := ih (p.advance c)
    have hadvance : (p.advance c).line ≤ p.line + 1 ∧ (p.advance c).column ≤ p.column + 1 := by
      unfold advance
      split_ifs <;> simp
    rw [advanceOver_cons, List.length_cons]
    omega

end Position

end LogoServer
