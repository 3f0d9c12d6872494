import LogoServer.Analysis.Highlight
import Mathlib.Tactic

/-! Highlighting as an editor reads it. Every five numbers tell of one stretch, by its distance from
the stretch before, so a list is read from its start on. -/
namespace LogoServer.Highlight

/-- A coloured stretch as an editor sees it. Category and modifiers are numbers of the legend. -/
structure Shade where
  line : Nat
  start : Nat
  length : Nat
  category : Nat
  modifiers : Nat
  deriving DecidableEq, Repr

namespace Shade

/-- Reads deltas one behind the other from a place on. On the same line characters count on from the
stretch before, on a later line from its start. -/
def ofDeltas : Nat × Nat → List Delta → List Shade
  | _, [] => []
  | (line, start), d :: deltas =>
    let place := if d.line = 0 then (line, start + d.start) else (line + d.line, d.start)
    ⟨place.1, place.2, d.length, d.category, d.modifiers⟩ :: ofDeltas place deltas

def decode (numbers : List Nat) : List Shade :=
  ofDeltas (0, 0) (Delta.ofNumbers numbers)

/-- Reading order of the starts. -/
def Before (a b : Shade) : Prop :=
  a.line < b.line ∨ a.line = b.line ∧ a.start < b.start

/-- No character belongs to both. -/
def Apart (a b : Shade) : Prop :=
  a.line = b.line → a.start + a.length ≤ b.start ∨ b.start + b.length ≤ a.start

end Shade

/-- The place that a delta leads to. -/
def Delta.placeFrom (before : Nat × Nat) (d : Delta) : Nat × Nat :=
  if d.line = 0 then (before.1, before.2 + d.start) else (before.1 + d.line, d.start)

/-- The stretch that a delta leads to. -/
def Delta.shadeFrom (before : Nat × Nat) (d : Delta) : Shade :=
  ⟨(d.placeFrom before).1, (d.placeFrom before).2, d.length, d.category, d.modifiers⟩

theorem Shade.ofDeltas_cons (before : Nat × Nat) (d : Delta) (deltas : List Delta) :
    ofDeltas before (d :: deltas) = d.shadeFrom before :: ofDeltas (d.placeFrom before) deltas :=
  rfl

namespace Modifier

/-- The modifiers of a number, in the order of their own numbers. -/
def ofMask (bits : Nat) : List Modifier :=
  all.filter fun m => bits.testBit m.ordinal

theorem testBit_foldl (modifiers : List Modifier) (bits n : Nat) :
    (modifiers.foldl (fun bits m => bits ||| 1 <<< m.ordinal) bits).testBit n =
      (bits.testBit n || modifiers.any fun m => m.ordinal = n) := by
  induction modifiers generalizing bits with
  | nil => simp
  | cons m modifiers ih =>
    rw [List.foldl_cons, ih, List.any_cons, Nat.testBit_or, Nat.one_shiftLeft, Nat.testBit_two_pow,
      Bool.or_assoc]

/-- A bit of a mask is set by the modifiers of its number. -/
theorem testBit_mask (modifiers : List Modifier) (n : Nat) :
    (mask modifiers).testBit n = modifiers.any fun m => m.ordinal = n := by
  rw [mask, testBit_foldl, Nat.zero_testBit, Bool.false_or]

theorem ordinal_injective : Function.Injective ordinal := by
  intro a b h
  cases a <;> cases b <;> first | rfl | cases h

theorem ofMask_mask (modifiers : List Modifier) :
    ofMask (mask modifiers) = all.filter (· ∈ modifiers) := by
  refine List.filter_congr fun m _ => ?_
  rw [testBit_mask, Bool.eq_iff_iff, List.any_eq_true, decide_eq_true_iff]
  constructor
  · rintro ⟨m', hm', hordinal⟩
    exact ordinal_injective (of_decide_eq_true hordinal) ▸ hm'
  · exact fun hm => ⟨m, hm, decide_eq_true rfl⟩

theorem mask_ofMask : ∀ bits < 4, mask (ofMask bits) = bits := by
  decide

theorem mask_lt (modifiers : List Modifier) : mask modifiers < 4 := by
  refine Nat.lt_pow_two_of_testBit (n := 2) _ fun n hn => ?_
  rw [testBit_mask, List.any_eq_false]
  intro m _ heq
  have hlt : m.ordinal < 2 := by cases m <;> decide
  have hm : m.ordinal = n := of_decide_eq_true heq
  omega

end Modifier

/-- The mark that a stretch tells of, if the legend has its category. -/
def Shade.mark? (a : Shade) : Option Mark :=
  Category.all[a.category]?.map fun category =>
    ⟨a.line, a.start, a.length, category, Modifier.ofMask a.modifiers⟩

namespace Mark

/-- What an editor is to see of a mark. -/
def shade (m : Mark) : Shade :=
  ⟨m.line, m.start, m.length, m.category.ordinal, Modifier.mask m.modifiers⟩

/-- The same mark, with its modifiers once each and in the order of their numbers. -/
def tidy (m : Mark) : Mark :=
  { m with modifiers := Modifier.all.filter (· ∈ m.modifiers) }

/-- Neither distance of the mark from the place before it stops at zero. -/
def Unclamped (before : Nat × Nat) (m : Mark) : Prop :=
  before.1 ≤ m.line ∧ (m.line - before.1 = 0 → before.2 ≤ m.start)

/-- The marks, each with the place that its distances are taken from. -/
def paired (before : Nat × Nat) (marks : List Mark) : List ((Nat × Nat) × Mark) :=
  (before :: marks.map place).zip marks

theorem deltas_eq (marks : List Mark) :
    deltas marks = (paired (0, 0) marks).map fun x => deltaFrom x.1 x.2 := by
  unfold deltas paired
  rw [List.map_zip_eq_zipWith]
  rfl

theorem paired_cons (before : Nat × Nat) (m : Mark) (marks : List Mark) :
    paired before (m :: marks) = (before, m) :: paired m.place marks := rfl

/-- A delta whose distances are true leads back to its mark. -/
theorem placeFrom_deltaFrom {before : Nat × Nat} {m : Mark} (h : m.Unclamped before) :
    (deltaFrom before m).placeFrom before = m.place := by
  obtain ⟨hline, hstart⟩ := h
  simp only [Delta.placeFrom, deltaFrom, place]
  split_ifs with hsame
  · have hline' : before.1 = m.line := by omega
    rw [hline', Nat.add_sub_cancel' (hstart hsame)]
  · rw [Nat.add_sub_cancel' hline]

theorem ofDeltas_deltaFrom {before : Nat × Nat} {m : Mark} (h : m.Unclamped before)
    (deltas : List Delta) :
    Shade.ofDeltas before (deltaFrom before m :: deltas) =
      m.shade :: Shade.ofDeltas m.place deltas := by
  rw [Shade.ofDeltas_cons, Delta.shadeFrom, placeFrom_deltaFrom h]
  rfl

theorem ofDeltas_paired {before : Nat × Nat} {marks : List Mark}
    (h : ∀ x ∈ paired before marks, x.2.Unclamped x.1) :
    Shade.ofDeltas before ((paired before marks).map fun x => deltaFrom x.1 x.2) =
      marks.map shade := by
  induction marks generalizing before with
  | nil => rfl
  | cons m marks ih =>
    rw [paired_cons] at h ⊢
    obtain ⟨hm, hmarks⟩ := List.forall_mem_cons.mp h
    rw [List.map_cons, ofDeltas_deltaFrom hm, ih hmarks, List.map_cons]

/-- Marks are read back as they were told if no distance stops at zero. -/
theorem decode_encode {marks : List Mark} (h : ∀ x ∈ paired (0, 0) marks, x.2.Unclamped x.1) :
    Shade.decode (encode marks) = marks.map shade := by
  rw [Shade.decode, encode, Delta.ofNumbers_flatMap_numbers, deltas_eq, ofDeltas_paired h]

theorem length_encode (marks : List Mark) : (encode marks).length = 5 * marks.length := by
  have hfive : ∀ d : Delta, d.numbers.length = 5 := fun _ => rfl
  have hdeltas : (deltas marks).length = marks.length := by
    simp [deltas]
  simp only [encode, List.length_flatMap, hfive, List.map_const', List.sum_replicate, hdeltas,
    smul_eq_mul]
  omega

/-- Marks in reading order are each told from a place that is not behind them. -/
theorem unclamped_of_pairwise {before : Nat × Nat} {marks : List Mark}
    (hbefore : ∀ m ∈ marks, m.Unclamped before)
    (h : marks.Pairwise fun a b => b.Unclamped a.place) :
    ∀ x ∈ paired before marks, x.2.Unclamped x.1 := by
  induction marks generalizing before with
  | nil => simp [paired]
  | cons m marks ih =>
    obtain ⟨hfirst, hrest⟩ := List.pairwise_cons.mp h
    rw [paired_cons]
    exact List.forall_mem_cons.mpr ⟨hbefore m List.mem_cons_self, ih hfirst hrest⟩

theorem unclamped_of_ordered {marks : List Mark}
    (h : marks.Pairwise fun a b => a.line < b.line ∨ a.line = b.line ∧ a.start ≤ b.start) :
    ∀ x ∈ paired (0, 0) marks, x.2.Unclamped x.1 := by
  apply unclamped_of_pairwise
  · intro m _
    exact ⟨Nat.zero_le _, fun _ => Nat.zero_le _⟩
  · refine h.imp fun {a b} hab => ?_
    simp only [Unclamped, place]
    omega

/-! ### Telling again what was read -/

theorem mark?_shade (m : Mark) : m.shade.mark? = some m.tidy := by
  have hcategory : Category.all[m.category.ordinal]? = some m.category := by
    cases m.category <;> rfl
  simp [Shade.mark?, shade, tidy, hcategory, Modifier.ofMask_mask]

theorem exists_mark {a : Shade} (hcategory : a.category < 5) (hmodifiers : a.modifiers < 4) :
    ∃ m, a.mark? = some m ∧ m.shade = a := by
  have hordinal : ∀ n < 5, ∃ category ∈ Category.all[n]?, category.ordinal = n := by
    decide
  obtain ⟨category, hcategory, hn⟩ := hordinal a.category hcategory
  refine ⟨⟨a.line, a.start, a.length, category, Modifier.ofMask a.modifiers⟩, ?_, ?_⟩
  · rw [Shade.mark?, Option.mem_def.mp hcategory]
    rfl
  · rw [shade, hn, Modifier.mask_ofMask a.modifiers hmodifiers]

/-- A mark that a delta leads to is told by that delta. -/
theorem deltaFrom_eq {before : Nat × Nat} {d : Delta} {m : Mark}
    (h : m.shade = d.shadeFrom before) : deltaFrom before m = d := by
  obtain ⟨line, start, length, category, modifiers⟩ := d
  simp only [shade, Delta.shadeFrom, Delta.placeFrom, Shade.mk.injEq] at h
  obtain ⟨hline, hstart, hlength, hcategory, hmodifiers⟩ := h
  simp only [deltaFrom, Delta.mk.injEq]
  split_ifs at * <;> omega

/-- Deltas that are read as marks are told of these marks again. -/
theorem deltaFrom_ofDeltas {deltas : List Delta} (before : Nat × Nat)
    (h : ∀ d ∈ deltas, d.category < 5 ∧ d.modifiers < 4) :
    (paired before ((Shade.ofDeltas before deltas).filterMap Shade.mark?)).map
      (fun x => deltaFrom x.1 x.2) = deltas := by
  induction deltas generalizing before with
  | nil => rfl
  | cons d deltas ih =>
    obtain ⟨⟨hcategory, hmodifiers⟩, hdeltas⟩ := List.forall_mem_cons.mp h
    obtain ⟨m, hm, hshade⟩ := exists_mark (a := d.shadeFrom before) hcategory hmodifiers
    have hplace : m.place = d.placeFrom before :=
      congrArg (fun a : Shade => (a.line, a.start)) hshade
    rw [Shade.ofDeltas_cons, List.filterMap_cons_some hm, paired_cons, List.map_cons, hplace,
      ih _ hdeltas, deltaFrom_eq hshade]

theorem lt_of_mem_encode {marks : List Mark}
    (h : ∀ m ∈ marks, m.line < 2 ^ 32 ∧ m.start < 2 ^ 32 ∧ m.length < 2 ^ 32) :
    ∀ n ∈ encode marks, n < 2 ^ 32 := by
  intro n hn
  rw [encode, deltas_eq, List.flatMap_map] at hn
  obtain ⟨⟨before, m⟩, hx, hn⟩ := List.mem_flatMap.mp hn
  obtain ⟨hline, hstart, hlength⟩ := h m (List.of_mem_zip hx).2
  have hcategory : m.category.ordinal < 5 := by
    cases m.category <;> decide
  have hmodifiers := Modifier.mask_lt m.modifiers
  simp only [Delta.numbers, deltaFrom, List.mem_cons, List.not_mem_nil, or_false] at hn
  split_ifs at hn <;> omega

end Mark

/-- Numbers are read in groups of five, of which only an incomplete last one is lost. -/
theorem Delta.flatMap_numbers_ofNumbers : ∀ ns : List Nat,
    (ofNumbers ns).flatMap numbers = ns.take (5 * (ns.length / 5))
  | line :: start :: length :: category :: modifiers :: rest => by
    have hgroups : 5 * ((rest.length + 5) / 5) = 5 * (rest.length / 5) + 5 := by omega
    simp only [ofNumbers, List.flatMap_cons, flatMap_numbers_ofNumbers rest, List.length_cons,
      hgroups]
    rfl
  | [] | [_] | [_, _] | [_, _, _] | [_, _, _, _] => by simp [ofNumbers]

theorem Mark.encode_decode {ns : List Nat} (hlength : 5 ∣ ns.length)
    (h : ∀ d ∈ Delta.ofNumbers ns, d.category < 5 ∧ d.modifiers < 4) :
    encode ((Shade.decode ns).filterMap Shade.mark?) = ns := by
  rw [encode, deltas_eq, Shade.decode, deltaFrom_ofDeltas (0, 0) h, Delta.flatMap_numbers_ofNumbers,
    Nat.mul_div_cancel' hlength, List.take_length]

/-- Telling and reading are inverse to each other. Marks in reading order are read as they were
told, each with its place, length and category and with the same modifiers, and numbers of 32 bits
are told in numbers of 32 bits; numbers in groups of five that the legend has words for are told
again as they were read; and putting numbers into groups loses none but those of an incomplete last
group. -/
theorem encode_decode_inverse :
    (∀ marks : List Mark,
      (marks.Pairwise fun a b => a.line < b.line ∨ a.line = b.line ∧ a.start ≤ b.start) →
        Shade.decode (Mark.encode marks) = marks.map Mark.shade ∧
        (Shade.decode (Mark.encode marks)).map Shade.mark? = marks.map (some ∘ Mark.tidy) ∧
        ((∀ m ∈ marks, m.line < 2 ^ 32 ∧ m.start < 2 ^ 32 ∧ m.length < 2 ^ 32) →
          ∀ n ∈ Mark.encode marks, n < 2 ^ 32)) ∧
    (∀ ns : List Nat, 5 ∣ ns.length →
      (∀ d ∈ Delta.ofNumbers ns, d.category < 5 ∧ d.modifiers < 4) →
        Mark.encode ((Shade.decode ns).filterMap Shade.mark?) = ns) ∧
    ∀ ns : List Nat,
      (Delta.ofNumbers ns).flatMap Delta.numbers = ns.take (5 * (ns.length / 5)) := by
  refine ⟨fun marks hmarks => ?_, fun _ => Mark.encode_decode, Delta.flatMap_numbers_ofNumbers⟩
  have hdecode : Shade.decode (Mark.encode marks) = marks.map Mark.shade :=
    Mark.decode_encode (Mark.unclamped_of_ordered hmarks)
  refine ⟨hdecode, ?_, Mark.lt_of_mem_encode⟩
  rw [hdecode, List.map_map]
  exact List.map_congr_left fun m _ => Mark.mark?_shade m

theorem encode_decode_of_two_marks :
    (Shade.decode (Mark.encode [⟨1, 3, 2, .function, [.definition]⟩,
        ⟨1, 6, 4, .variable, [.definition, .declaration]⟩])).map Shade.mark? =
      [some ⟨1, 3, 2, .function, [.definition]⟩,
        some ⟨1, 6, 4, .variable, [.declaration, .definition]⟩] ∧
    Mark.encode ((Shade.decode [1, 3, 2, 3, 2, 0, 3, 4, 4, 3]).filterMap Shade.mark?) =
      [1, 3, 2, 3, 2, 0, 3, 4, 4, 3] := by
  obtain ⟨hmarks, hnumbers, _⟩ := encode_decode_inverse
  obtain ⟨_, hread, _⟩ := hmarks [⟨1, 3, 2, .function, [.definition]⟩,
    ⟨1, 6, 4, .variable, [.definition, .declaration]⟩] (by decide)
  exact ⟨hread, hnumbers _ (by decide) (by decide)⟩

end LogoServer.Highlight
