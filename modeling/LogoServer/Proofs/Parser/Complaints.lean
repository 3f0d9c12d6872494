import LogoServer.Proofs.Parser.Account
import LogoServer.Proofs.Text.Order
import Mathlib.Tactic

/-! Where a parse complains. Complaints stand in reading order, each behind a token that was matched
since the one before; only the report of the nesting limit, which is made once, may come to stand at
the place of another complaint. -/
namespace LogoServer

def SyntaxError.isTooDeep (e : SyntaxError) : Bool :=
  e.complaint.isTooDeep

/-- The first error stands before the second one, or at the same place if one of them reports the
nesting limit; they do not both report it. -/
def SyntaxError.Apart (a b : SyntaxError) : Prop :=
  (a.isTooDeep = false ∨ b.isTooDeep = false) ∧
    (a.position.Before b.position ∨
      a.position = b.position ∧ (a.isTooDeep = true ∨ b.isTooDeep = true))

namespace SyntaxError

variable {es : List SyntaxError}

/-- Of three errors at one place, two would be of the same sort. -/
theorem length_le_two (h : es.Pairwise Apart) (p : Position) (hp : ∀ e ∈ es, e.position = p) :
    es.length ≤ 2 := by
  match es with
  | [] | [_] | [_, _] => simp
  | a :: b :: c :: later =>
    simp only [List.mem_cons, forall_eq_or_imp] at hp
    obtain ⟨ha, hb, hc, _⟩ := hp
    simp only [List.pairwise_cons, List.mem_cons, forall_eq_or_imp] at h
    obtain ⟨⟨hab, hac, _⟩, ⟨hbc, _⟩, _⟩ := h
    simp only [Apart, ha, hb, hc, Position.not_before_self, false_or, true_and] at hab hac hbc
    grind

/-- At one place there is at most one error that does not report the nesting limit. -/
theorem length_le_one (h : es.Pairwise Apart) (p : Position)
    (hp : ∀ e ∈ es, e.isTooDeep = false ∧ e.position = p) : es.length ≤ 1 := by
  match es with
  | [] | [_] => simp
  | a :: b :: later =>
    obtain ⟨ha, hpa⟩ := hp a (by simp)
    obtain ⟨hb, hpb⟩ := hp b (by simp)
    obtain ⟨_, hab⟩ := List.rel_of_pairwise_cons h List.mem_cons_self
    simp [ha, hb, hpa, hpb, Position.not_before_self] at hab

end SyntaxError

namespace Parser

open SyntaxError

/-- The tokens ahead stand in reading order, the mark of the end behind them. -/
def State.Ordered (s : State) : Prop :=
  (s.rest ++ [s.eof]).Pairwise fun a b => a.position.Before b.position

namespace State

variable {s : State} {t : Token} {rest : List Token}

theorem current_mem (s : State) : s.current ∈ s.rest ++ [s.eof] := by
  unfold current
  cases s.rest <;> simp

/-- Behind one token stands the next one. -/
theorem Ordered.before_current (h : s.Ordered) (hrest : s.rest = t :: rest) :
    s.current.position.Before (rest.headD s.eof).position := by
  unfold Ordered at h
  rw [hrest, List.cons_append] at h
  have hcurrent : s.current = t := by simp [current, hrest]
  rw [hcurrent]
  refine List.rel_of_pairwise_cons h ?_
  cases rest <;> simp

theorem Ordered.tail (h : s.Ordered) (hrest : s.rest = t :: rest) :
    (rest ++ [s.eof]).Pairwise fun a b => a.position.Before b.position := by
  unfold Ordered at h
  rw [hrest, List.cons_append] at h
  exact h.of_cons

end State

namespace Passage

variable {s t : State} {ns : List Note}

/-- A complaint is about a token ahead or about the end. -/
theorem exists_of_mem_errors (h : Passage s ns t) {e : SyntaxError}
    (he : e ∈ ns.filterMap Note.error?) :
    ∃ u ∈ s.rest ++ [s.eof], ∃ complaint, e = .atToken complaint u := by
  induction h with
  | stay s => simp at he
  | take hrest _ ih | skip hrest _ _ ih =>
    obtain ⟨u, hu, habout⟩ := ih he
    rw [hrest]
    exact ⟨u, List.mem_cons_of_mem _ hu, habout⟩
  | @complain s _ _ _ _ _ _ ih | @tooDeep s _ _ _ _ ih =>
    rcases List.mem_cons.mp he with rfl | he
    · exact ⟨s.current, s.current_mem, _, rfl⟩
    · exact ih he
  | tooDeepAgain _ _ ih => exact ih he
  | mark _ herror _ ih =>
    rw [List.filterMap_cons, herror] at he
    exact ih he

/-- Once the nesting limit is on record it is not reported again. -/
theorem isTooDeep_of_tooDeep (h : Passage s ns t) (htooDeep : s.tooDeep = true) :
    ∀ e ∈ ns.filterMap Note.error?, e.isTooDeep = false := by
  induction h with
  | stay s => simp
  | take _ _ ih | skip _ _ _ ih => exact ih htooDeep
  | complain complaint hplain _ _ ih =>
    intro e he
    rcases List.mem_cons.mp he with rfl | he
    · exact hplain
    · exact ih htooDeep e he
  | tooDeep hnot _ _ =>
    rw [htooDeep] at hnot
    cases hnot
  | tooDeepAgain _ _ ih => exact ih htooDeep
  | mark _ herror _ ih =>
    rw [List.filterMap_cons, herror]
    exact ih htooDeep

theorem notAfter_of_mem_errors (h : Passage s ns t) (hs : s.Ordered) {e : SyntaxError}
    (he : e ∈ ns.filterMap Note.error?) : s.current.position.notAfter e.position = true := by
  induction h with
  | stay s => simp at he
  | take hrest _ ih | skip hrest _ _ ih =>
    have hbefore := hs.before_current hrest
    exact Position.notAfter_trans (Position.notAfter_of_before hbefore)
      (ih (hs.tail hrest) he)
  | complain _ _ _ _ ih | tooDeep _ _ ih =>
    rcases List.mem_cons.mp he with rfl | he
    · exact Position.notAfter_refl _
    · exact ih hs he
  | tooDeepAgain _ _ ih => exact ih hs he
  | mark _ herror _ ih =>
    rw [List.filterMap_cons, herror] at he
    exact ih hs he

/-- While complaints are withheld the next one cannot be about the same token, since a token has to
be matched before it. -/
theorem before_of_mem_errors (h : Passage s ns t) (hs : s.Ordered)
    (hrecovering : s.recovering = true) {e : SyntaxError} (he : e ∈ ns.filterMap Note.error?)
    (hplain : e.isTooDeep = false) : s.current.position.Before e.position := by
  induction h with
  | stay s => simp at he
  | take hrest htail _ =>
    have hbefore := hs.before_current hrest
    exact hbefore.trans_notAfter (htail.notAfter_of_mem_errors (hs.tail hrest) he)
  | skip hrest _ htail _ =>
    have hbefore := hs.before_current hrest
    exact hbefore.trans_notAfter (htail.notAfter_of_mem_errors (hs.tail hrest) he)
  | complain _ _ hnot _ _ =>
    rw [hrecovering] at hnot
    cases hnot
  | tooDeep _ _ ih =>
    rcases List.mem_cons.mp he with rfl | he
    · cases hplain
    · exact ih hs rfl he
  | tooDeepAgain _ _ ih => exact ih hs rfl he
  | mark _ herror _ ih =>
    rw [List.filterMap_cons, herror] at he
    exact ih hs hrecovering he

/-- The complaints of a parse stand apart from each other. -/
theorem errors_pairwise_apart (h : Passage s ns t) (hs : s.Ordered) :
    (ns.filterMap Note.error?).Pairwise Apart := by
  induction h with
  | stay s => exact .nil
  | take hrest _ ih | skip hrest _ _ ih => exact ih (hs.tail hrest)
  | complain complaint hplain _ htail ih =>
    refine List.pairwise_cons.mpr ⟨fun e he => ⟨.inl hplain, ?_⟩, ih hs⟩
    cases hdeep : e.isTooDeep with
    | false => exact .inl (htail.before_of_mem_errors hs rfl he hdeep)
    | true =>
      rcases Position.before_or_eq_of_notAfter (htail.notAfter_of_mem_errors hs he) with h | h
      · exact .inl h
      · exact .inr ⟨h, .inr rfl⟩
  | tooDeep _ htail ih =>
    refine List.pairwise_cons.mpr ⟨fun e he => ?_, ih hs⟩
    have hplain := htail.isTooDeep_of_tooDeep rfl e he
    exact ⟨.inr hplain, .inl (htail.before_of_mem_errors hs rfl he hplain)⟩
  | tooDeepAgain _ _ ih => exact ih hs
  | mark _ herror _ ih =>
    rw [List.filterMap_cons, herror]
    exact ih hs

/-- While complaints are withheld, a token is matched before the next one. -/
theorem exists_taken_of_recovering {between later : List Note} {e : SyntaxError}
    (h : Passage s ns t) (hns : ns = between ++ .complained e :: later)
    (hrecovering : s.recovering = true) (hplain : e.isTooDeep = false) :
    ∃ u, Note.taken u ∈ between := by
  induction h generalizing between with
  | stay s => simp at hns
  | take _ _ _ =>
    cases between with
    | nil => cases hns
    | cons note between =>
      obtain ⟨rfl, _⟩ := List.cons.inj hns
      exact ⟨_, List.mem_cons_self⟩
  | skip _ _ _ ih =>
    cases between with
    | nil => cases hns
    | cons note between =>
      obtain ⟨u, hu⟩ := ih (List.cons.inj hns).2 hrecovering
      exact ⟨u, List.mem_cons_of_mem _ hu⟩
  | complain _ _ hnot _ _ =>
    rw [hrecovering] at hnot
    cases hnot
  | tooDeep _ _ ih =>
    cases between with
    | nil =>
      injection (List.cons.inj hns).1 with he
      rw [← he] at hplain
      cases hplain
    | cons note between =>
      obtain ⟨u, hu⟩ := ih (List.cons.inj hns).2 rfl
      exact ⟨u, List.mem_cons_of_mem _ hu⟩
  | tooDeepAgain _ _ ih => exact ih hns rfl
  | mark _ herror _ ih =>
    cases between with
    | nil =>
      obtain ⟨rfl, _⟩ := List.cons.inj hns
      cases herror
    | cons note between =>
      obtain ⟨u, hu⟩ := ih (List.cons.inj hns).2 hrecovering
      exact ⟨u, List.mem_cons_of_mem _ hu⟩

/-- Between two complaints, reports of the nesting limit apart, a token is matched. -/
theorem exists_taken_between {earlier between later : List Note} {e e' : SyntaxError}
    (h : Passage s ns t)
    (hns : ns = earlier ++ .complained e :: (between ++ .complained e' :: later))
    (he : e.isTooDeep = false) (he' : e'.isTooDeep = false) :
    ∃ u ∈ s.rest, Note.taken u ∈ between := by
  have hmem {u : Token} (hu : Note.taken u ∈ between) : u ∈ s.rest := by
    rw [h.rest_eq]
    refine List.mem_append_left _ (List.mem_filterMap.mpr ⟨.taken u, ?_, rfl⟩)
    rw [hns]
    simp [hu]
  suffices hbetween : ∃ u, Note.taken u ∈ between by
    obtain ⟨u, hu⟩ := hbetween
    exact ⟨u, hmem hu, hu⟩
  clear hmem
  induction h generalizing earlier with
  | stay s => simp at hns
  | take _ _ ih | skip _ _ _ ih =>
    cases earlier with
    | nil => cases hns
    | cons note earlier => exact ih (List.cons.inj hns).2
  | complain _ _ _ htail ih =>
    cases earlier with
    | nil => exact htail.exists_taken_of_recovering (List.cons.inj hns).2 rfl he'
    | cons note earlier => exact ih (List.cons.inj hns).2
  | tooDeep _ _ ih =>
    cases earlier with
    | nil =>
      injection (List.cons.inj hns).1 with heq
      rw [← heq] at he
      cases he
    | cons note earlier => exact ih (List.cons.inj hns).2
  | tooDeepAgain _ _ ih => exact ih hns
  | mark _ herror _ ih =>
    cases earlier with
    | nil =>
      obtain ⟨rfl, _⟩ := List.cons.inj hns
      cases herror
    | cons note earlier => exact ih (List.cons.inj hns).2

end Passage

end Parser

end LogoServer
