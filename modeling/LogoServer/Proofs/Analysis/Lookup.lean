import LogoServer.Analysis.Reference
import LogoServer.Proofs.Token.Partition
import Mathlib.Tactic

/-! The token under a cursor: halving a list in reading order finds the last token that does not
start behind the cursor, as a scan of the list does, and no other token can touch it there. -/
namespace LogoServer

namespace Reference

variable {α : Type} {test : α → Bool} {entries : Array α}

/-- The entry at an index is there and passes the test. -/
def passes (test : α → Bool) (entries : Array α) (i : Nat) : Bool :=
  entries[i]?.any test

/-- Each halving keeps the last entry that passes the test inside the stretch. -/
theorem bisect_spec (hdown : ∀ i j, i ≤ j → passes test entries j = true →
    passes test entries i = true) (base size : Nat) :
    (bisect test entries base size = base ∨
        passes test entries (bisect test entries base size) = true) ∧
      ∀ i, bisect test entries base size < i → i < base + size → passes test entries i = false := by
  induction base, size using bisect.induct test entries with
  | case1 base size hsize =>
    rw [bisect, if_pos hsize]
    exact ⟨.inl rfl, fun i hi hi' => by omega⟩
  | case2 base size hsize half hpasses ih =>
    rw [bisect, if_neg hsize, if_pos hpasses]
    obtain ⟨hfound, habove⟩ := ih
    refine ⟨.inr ?_, fun i hi hi' => habove i hi (by omega)⟩
    rcases hfound with h | h
    · rw [h]
      exact hpasses
    · exact h
  | case3 base size hsize half hfails ih =>
    rw [bisect, if_neg hsize, if_neg hfails]
    obtain ⟨hfound, habove⟩ := ih
    refine ⟨hfound, fun i hi hi' => ?_⟩
    by_cases hlow : i < base + (size - half)
    · exact habove i hi hlow
    · have hhigh : base + half ≤ i := by omega
      rw [← Bool.not_eq_true]
      exact fun hi => hfails (hdown _ _ hhigh hi)

theorem passes_toArray_iff {entries : List α} {i : Nat} :
    passes test entries.toArray i = true ↔ ∃ h : i < entries.length, test entries[i] = true := by
  rw [passes, List.getElem?_toArray]
  by_cases hi : i < entries.length
  · simp [hi]
  · simp [hi]

section Sorted

variable {uses : List Token} {cursor : Position} {t : Token}
  (hsorted : uses.Pairwise fun a b => a.position.Before b.position)
include hsorted

theorem getElem_notAfter {i j : Nat} (hij : i ≤ j) (hj : j < uses.length) :
    (uses[i].position).notAfter uses[j].position = true := by
  rcases Nat.lt_or_eq_of_le hij with hlt | rfl
  · exact Position.notAfter_of_before
      (List.pairwise_iff_getElem.mp hsorted i j (by omega) hj hlt)
  · exact Position.notAfter_refl _

/-- The last of the tokens in reading order that does not start behind the cursor. -/
theorem lastNotAfter_eq_some_iff :
    lastNotAfter cursor uses.toArray = some t ↔
      t ∈ uses ∧ t.position.notAfter cursor = true ∧
        ∀ u ∈ uses, u.position.notAfter cursor = true → u.position.notAfter t.position = true := by
  let test (t : Token) := t.position.notAfter cursor
  have hdown : ∀ i j, i ≤ j → passes test uses.toArray j = true →
      passes test uses.toArray i = true := by
    intro i j hij hj
    obtain ⟨hlt, htest⟩ := passes_toArray_iff.mp hj
    exact passes_toArray_iff.mpr
      ⟨by omega, Position.notAfter_trans (getElem_notAfter hsorted hij hlt) htest⟩
  let k := bisect test uses.toArray 0 uses.toArray.size
  obtain ⟨hfound, habove⟩ : (k = 0 ∨ passes test uses.toArray k = true) ∧
      ∀ i, k < i → i < 0 + uses.toArray.size → passes test uses.toArray i = false :=
    bisect_spec hdown 0 uses.toArray.size
  have hle : ∀ {j : Nat} (hj : j < uses.length), test uses[j] = true → j ≤ k := by
    intro j hj htest
    by_contra hlt
    have hfails := habove j (by omega) (by simpa using hj)
    rw [passes_toArray_iff.mpr ⟨hj, htest⟩] at hfails
    cases hfails
  have heq : lastNotAfter cursor uses.toArray = uses[k]?.filter test := by
    rw [← List.getElem?_toArray]
    rfl
  rw [heq, Option.filter_eq_some_iff, List.getElem?_eq_some_iff]
  constructor
  · rintro ⟨⟨hk, rfl⟩, htest⟩
    refine ⟨List.getElem_mem hk, htest, fun u hu hutest => ?_⟩
    obtain ⟨j, hj, rfl⟩ := List.getElem_of_mem hu
    exact getElem_notAfter hsorted (hle hj hutest) hk
  · rintro ⟨ht, htest, hlast⟩
    obtain ⟨j, hj, rfl⟩ := List.getElem_of_mem ht
    have hjk := hle hj htest
    have hpasses : passes test uses.toArray k = true := by
      rcases hfound with hzero | hpasses
      · obtain rfl : j = k := by omega
        exact passes_toArray_iff.mpr ⟨hj, htest⟩
      · exact hpasses
    obtain ⟨hk, hktest⟩ := passes_toArray_iff.mp hpasses
    have hkj := hlast _ (List.getElem_mem hk) hktest
    refine ⟨⟨hk, ?_⟩, htest⟩
    rcases Nat.lt_or_eq_of_le hjk with hlt | rfl
    · have hbefore := List.pairwise_iff_getElem.mp hsorted j k hj hk hlt
      rw [(Position.not_notAfter_iff _ _).mpr hbefore] at hkj
      cases hkj
    · rfl

end Sorted

end Reference

/-- The cursor stands on the token or right behind it. -/
def Token.TouchedBy (t : Token) (cursor : Position) : Prop :=
  t.position.line = cursor.line ∧ t.position.column ≤ cursor.column ∧
    cursor.column ≤ t.position.column + t.length

namespace Reference

variable {uses : List Token} {cursor : Position} {t : Token}

theorem touchedBy_iff :
    t.TouchedBy cursor ↔ t.position.notAfter cursor = true ∧ touches cursor t = true := by
  simp only [Token.TouchedBy, Position.notAfter_iff, touches, Bool.and_eq_true, decide_eq_true_eq]
  omega

/-- A token behind one that is touched starts behind the cursor, or at it. -/
theorem position_eq_of_touchedBy {a b : Token} (ha : a.TouchedBy cursor) (hab : a.Precedes b)
    (hb : b.position.notAfter cursor = true) : b.position = cursor := by
  obtain ⟨hline, _, hcolumn⟩ := ha
  rw [Token.Precedes, Position.notAfter_iff] at hab
  rw [Position.notAfter_iff] at hb
  simp only [Token.finish] at hab
  have hlines : b.position.line = cursor.line := by omega
  have hcolumns : b.position.column = cursor.column := by omega
  cases hp : b.position
  cases cursor
  simp_all

section Precedes

variable (hwell : ∀ t ∈ uses, t.toLexeme.WellFormed) (hprecedes : uses.Pairwise Token.Precedes)
include hwell hprecedes

theorem pairwise_before : uses.Pairwise fun a b => a.position.Before b.position :=
  hprecedes.imp_of_mem fun ha _ h => h.before (hwell _ ha)

/-- The token under the cursor is one that is touched; of two, it is the one that starts there. -/
theorem under_eq_some_iff :
    under cursor uses.toArray = some t ↔
      t ∈ uses ∧ t.TouchedBy cursor ∧ ∀ u ∈ uses, u.position = cursor → u = t := by
  have hsorted := pairwise_before hwell hprecedes
  rw [under, Option.filter_eq_some_iff, lastNotAfter_eq_some_iff hsorted, touchedBy_iff]
  constructor
  · rintro ⟨⟨ht, hnotAfter, hlast⟩, htouches⟩
    refine ⟨ht, ⟨hnotAfter, htouches⟩, fun u hu hposition => ?_⟩
    have hut := hlast u hu (hposition ▸ Position.notAfter_refl u.position)
    rcases eq_or_of_pairwise hprecedes hu ht with rfl | hprec | hprec
    · rfl
    · have hbefore := hprec.before (hwell u hu)
      rw [hposition, ← Position.not_notAfter_iff, hnotAfter] at hbefore
      cases hbefore
    · have hbefore := hprec.before (hwell t ht)
      rw [← Position.not_notAfter_iff, hut] at hbefore
      cases hbefore
  · rintro ⟨ht, htouched, hstarts⟩
    refine ⟨⟨ht, htouched.1, fun u hu hnotAfter => ?_⟩, htouched.2⟩
    rcases eq_or_of_pairwise hprecedes hu ht with rfl | hprec | hprec
    · exact Position.notAfter_refl _
    · exact Position.notAfter_of_before (hprec.before (hwell u hu))
    · have hposition := position_eq_of_touchedBy (touchedBy_iff.mpr htouched) hprec hnotAfter
      rw [hstarts u hu hposition]
      exact Position.notAfter_refl _

theorem under_eq_none_iff :
    under cursor uses.toArray = none ↔ ∀ t ∈ uses, ¬ t.TouchedBy cursor := by
  constructor
  · intro hnone t ht htouched
    by_cases hstarts : ∃ u ∈ uses, u.position = cursor
    · obtain ⟨u, hu, rfl⟩ := hstarts
      have hsome : under u.position uses.toArray = some u :=
        (under_eq_some_iff hwell hprecedes).mpr ⟨hu, ⟨rfl, le_rfl, by omega⟩,
          fun v hv h => Token.eq_of_position_eq hwell hprecedes hv hu h⟩
      rw [hnone] at hsome
      cases hsome
    · have hsome : under cursor uses.toArray = some t :=
        (under_eq_some_iff hwell hprecedes).mpr
          ⟨ht, htouched, fun u hu h => absurd ⟨u, hu, h⟩ hstarts⟩
      rw [hnone] at hsome
      cases hsome
  · intro hnone
    cases hunder : under cursor uses.toArray with
    | none => rfl
    | some t =>
      obtain ⟨ht, htouched, _⟩ := (under_eq_some_iff hwell hprecedes).mp hunder
      exact absurd htouched (hnone t ht)

end Precedes

/-! ### Against a linear scan -/

/-- The last token that does not start after the cursor, found by looking at each in turn. -/
def scan (cursor : Position) (uses : List Token) : Option Token :=
  uses.reverse.find? fun t => t.position.line < cursor.line ∨
    t.position.line = cursor.line ∧ t.position.column ≤ cursor.column

/-- What an index lists for a name as it is written: with a colon in front, the variables. -/
def listed (index : List Declaration) (text : String) : List Span :=
  if text.toList.head? = some ':' then
    Declaration.spansOf index .variables (String.ofList text.toList.tail)
  else Declaration.spansOf index .procedures text

/-- Declarations of the name under an editor's cursor, by a scan. The last use that does not start
after the cursor counts if it is on the cursor's line and ends no earlier than the cursor. -/
def resolveByScan (uses : List Token) (index : List Declaration) (line character : Nat) :
    List Span :=
  match scan ⟨line + 1, character⟩ uses with
  | some t =>
    if t.position.line = line + 1 ∧ character ≤ t.position.column + t.length then
      listed index t.text
    else []
  | none => []

theorem declarations_eq_listed (index : List Declaration) (t : Token) :
    declarations index t = listed index t.text := by
  unfold declarations listed Declaration.withoutMark
  cases t.text.toList with
  | nil => rfl
  | cons c rest => by_cases hc : c = ':' <;> simp [hc]

section Sorted

variable (hsorted : uses.Pairwise fun a b => a.position.Before b.position)
include hsorted

theorem scan_spec (h : scan cursor uses = some t) :
    t ∈ uses ∧ t.position.notAfter cursor = true ∧
      ∀ u ∈ uses, u.position.notAfter cursor = true → u.position.notAfter t.position = true := by
  obtain ⟨htest, behind, before, huses, hbehind⟩ := List.find?_eq_some_iff_append.mp h
  have hmem (u : Token) : u ∈ uses ↔ u ∈ behind ∨ u = t ∨ u ∈ before := by
    rw [← List.mem_reverse, huses, List.mem_append, List.mem_cons]
  rw [decide_eq_true_eq, ← Position.notAfter_iff] at htest
  refine ⟨(hmem t).mpr (.inr (.inl rfl)), htest, fun u hu hnotAfter => ?_⟩
  rcases (hmem u).mp hu with hu | rfl | hu
  · have hfails := hbehind u hu
    rw [Position.notAfter_iff] at hnotAfter
    simp [hnotAfter] at hfails
  · exact Position.notAfter_refl _
  · -- In reverse order what is before a token comes behind it.
    rw [← List.reverse_reverse uses, List.pairwise_reverse, huses, List.pairwise_append,
      List.pairwise_cons] at hsorted
    exact Position.notAfter_of_before (hsorted.2.1.1 u hu)

theorem lastNotAfter_eq_scan : lastNotAfter cursor uses.toArray = scan cursor uses := by
  cases hscan : scan cursor uses with
  | some t => exact (lastNotAfter_eq_some_iff hsorted).mpr (scan_spec hsorted hscan)
  | none =>
    rw [Option.eq_none_iff_forall_ne_some]
    intro t ht
    obtain ⟨hmem, hnotAfter, _⟩ := (lastNotAfter_eq_some_iff hsorted).mp ht
    rw [Position.notAfter_iff] at hnotAfter
    simpa [hnotAfter] using List.find?_eq_none.mp hscan t (List.mem_reverse.mpr hmem)

/-- Halving a list in reading order finds what a scan of it finds, whether tokens in it touch,
overlap or stand apart. -/
theorem resolve_eq_resolveByScan (index : List Declaration) (line character : Nat) :
    resolve uses index line character = resolveByScan uses index line character := by
  unfold resolve resolveByScan under
  rw [lastNotAfter_eq_scan hsorted]
  cases scan ⟨line + 1, character⟩ uses with
  | none => rfl
  | some t =>
    by_cases htouches : touches ⟨line + 1, character⟩ t = true
    · rw [Option.filter_some_pos htouches]
      simp only [touches, Bool.and_eq_true, decide_eq_true_eq] at htouches
      simp only [if_pos htouches, declarations_eq_listed]
    · rw [Option.filter_some_neg (by simpa using htouches)]
      simp only [touches, Bool.and_eq_true, decide_eq_true_eq] at htouches
      simp only [if_neg htouches]

end Sorted

/-- Of two uses that touch, the cursor between them is on the second one. -/
theorem resolve_between_uses :
    let uses : List Token := [⟨⟨.colonName, ":a"⟩, ⟨2, 5⟩⟩, ⟨⟨.colonName, ":b"⟩, ⟨2, 7⟩⟩,
      ⟨⟨.name, "f"⟩, ⟨3, 0⟩⟩]
    let index : List Declaration := [⟨.variables, "a", ⟨0, 5, 7⟩⟩, ⟨.procedures, "b", ⟨0, 11, 12⟩⟩,
      ⟨.variables, "b", ⟨0, 16, 18⟩⟩]
    uses.Pairwise (fun a b => a.position.Before b.position) ∧
      resolve uses index 1 7 = [⟨0, 16, 18⟩] := by
  intro uses index
  have hsorted : uses.Pairwise fun a b => a.position.Before b.position := by
    simp [uses, Position.Before]
  exact ⟨hsorted, (resolve_eq_resolveByScan hsorted index 1 7).trans (by decide)⟩

end Reference

end LogoServer
