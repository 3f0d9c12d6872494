/-! Sets of code points given as tables of ranges. -/
namespace LogoServer.Text

/-- Closed ranges of code points, disjoint and in ascending order. -/
abbrev RangeTable := List (Nat × Nat)

namespace RangeTable

/-- Each range starts after the end of the one before it. -/
def Ascending (table : RangeTable) : Prop :=
  (∀ range ∈ table, range.1 ≤ range.2) ∧ table.Pairwise (fun r s => r.2 < s.1)

/-- It is enough to compare neighbours, which takes one pass over the table. -/
theorem ascending_of_neighbours {table : RangeTable} (hne : ∀ range ∈ table, range.1 ≤ range.2)
    (hnext : ∀ pair ∈ table.zip table.tail, pair.1.2 < pair.2.1) : table.Ascending := by
  refine ⟨hne, ?_⟩
  induction table with
  | nil => exact .nil
  | cons first table ih =>
    cases table with
    | nil => exact List.pairwise_singleton _ _
    | cons second table =>
      have hrest := ih (fun r hr => hne r (List.mem_cons_of_mem _ hr))
        fun pair hpair => hnext pair (List.mem_cons_of_mem _ hpair)
      have hfirst : first.2 < second.1 := hnext (first, second) List.mem_cons_self
      have hsecond := hne second (List.mem_cons_of_mem _ List.mem_cons_self)
      refine List.pairwise_cons.mpr ⟨fun r hr => ?_, hrest⟩
      rcases List.mem_cons.mp hr with rfl | hr
      · exact hfirst
      · have := (List.pairwise_cons.mp hrest).1 r hr
        omega

/-- The code point lies in one of the ranges. The search ends at the first range beyond it. -/
def contains : RangeTable → Nat → Bool
  | [], _ => false
  | (lo, hi) :: table, n => if n < lo then false else n ≤ hi || contains table n

/-- On an ascending table the early end of the search loses nothing. -/
theorem contains_iff {table : RangeTable} (h : table.Ascending) (n : Nat) :
    table.contains n = true ↔ ∃ range ∈ table, range.1 ≤ n ∧ n ≤ range.2 := by
  induction table with
  | nil => simp [contains]
  | cons range table ih =>
    obtain ⟨lo, hi⟩ := range
    obtain ⟨hne, hlt⟩ := h
    rw [List.pairwise_cons] at hlt
    have ih := ih ⟨fun r hr => hne r (List.mem_cons_of_mem _ hr), hlt.2⟩
    have hlo : lo ≤ hi := hne (lo, hi) List.mem_cons_self
    by_cases hn : n < lo
    · have hrest : ∀ r ∈ table, ¬(r.1 ≤ n ∧ n ≤ r.2) := by
        intro r hr
        have := hlt.1 r hr
        omega
      simp only [contains, hn, if_true, List.mem_cons, exists_eq_or_imp]
      constructor
      · simp
      · rintro (h | ⟨r, hr, h⟩)
        · omega
        · exact absurd h (hrest r hr)
    · simp only [contains, hn, if_false, Bool.or_eq_true, decide_eq_true_eq, ih, List.mem_cons,
        exists_eq_or_imp]
      simp [Nat.le_of_not_lt hn]

end RangeTable

end LogoServer.Text
