import LogoServer.Document
import LogoServer.Proofs.Analysis.Lookup
import LogoServer.Proofs.Parsed.Reading
import Mathlib.Tactic

/-! Declarations of the name under a cursor, told from the events of the document alone. -/
namespace LogoServer

/-- The characters of the token, lines and columns counted from zero and without a limit. -/
def Token.extent (t : Token) : Span :=
  ⟨t.position.line - 1, t.position.column, t.position.column + t.length⟩

def Span.Before (a b : Span) : Prop :=
  a.line < b.line ∨ a.line = b.line ∧ a.start < b.start

namespace Event

/-- The event uses a name: it is a variable reference or a call. -/
def isUse : Event → Bool
  | .reference _ | .call _ => true
  | _ => false

def binds (name : String) : Event → Bool
  | .binding _ t => t.text = "\"" ++ name
  | _ => false

def introduces (name : String) : Event → Bool
  | .definition .to t => t.text = name
  | .definition .define t => t.text = "\"" ++ name
  | _ => false

/-- The use of a name that an editor's cursor stands on: it is touched, and where one use ends and
another starts it is the one that starts. -/
structure UsedAt (events : List Event) (line character : Nat) (e : Event) : Prop where
  mem : e ∈ events
  isUse : e.isUse = true
  touched : e.token.TouchedBy ⟨line + 1, character⟩
  starts : ∀ f ∈ events, f.isUse = true → f.token.position = ⟨line + 1, character⟩ → f = e

end Event

theorem Reference.ofEvents_eq (events : List Event) :
    Reference.ofEvents events = (events.filter Event.isUse).map Event.token := by
  induction events with
  | nil => rfl
  | cons e events ih =>
    rw [Reference.ofEvents] at ih ⊢
    cases e <;>
      simp [List.filterMap_cons, List.filter_cons, Reference.ofEvent?, Event.isUse, Event.token, ih]

namespace Declaration

theorem withoutMark_of_cons {mark : Char} {text : String} {name : List Char}
    (h : text.toList = mark :: name) : withoutMark mark text = some (String.ofList name) := by
  simp [withoutMark, h]

theorem eq_append_iff_of_cons (mark : String) {text name : String} {c : Char} {rest : List Char}
    (hmark : mark.toList = [c]) (h : text.toList = c :: rest) :
    text = mark ++ name ↔ String.ofList rest = name := by
  rw [← String.toList_inj, ← String.toList_inj, String.toList_append, hmark, h]
  simp

/-- Declarations of a name come from the events that declare it, one each. -/
theorem spansOf_ofEvents {events : List Event} {space : NameSpace} {name : String}
    {test : Event → Bool}
    (h : ∀ e ∈ events, spansOf (ofEvents [e]) space name =
      if test e then [e.token.extent] else []) :
    spansOf (ofEvents events) space name =
      (events.filter test).map fun e => e.token.extent := by
  induction events with
  | nil => rfl
  | cons e events ih =>
    obtain ⟨he, hevents⟩ := List.forall_mem_cons.mp h
    have happend : spansOf (ofEvents (e :: events)) space name =
        spansOf (ofEvents [e]) space name ++ spansOf (ofEvents events) space name := by
      simp only [spansOf, ofEvents, ← List.map_append, ← List.filter_append]
      rw [← List.filterMap_append]
      rfl
    rw [happend, he, ih hevents, List.filter_cons]
    split_ifs <;> rfl

theorem spansOf_singleton (d : Declaration) (space : NameSpace) (name : String) :
    spansOf [d] space name = if d.space = space ∧ d.name = name then [d.span] else [] := by
  rw [spansOf, List.filter_cons]
  split_ifs <;> simp_all

/-- A quoted word stands for the name behind its mark. -/
theorem unquoted_eq_iff {t : Token} (hwell : t.toLexeme.WellFormed) (hkind : t.kind = .word)
    (name : String) : unquoted t.text = name ↔ t.text = "\"" ++ name := by
  obtain ⟨rest, hrest⟩ := hwell.quote hkind
  rw [unquoted, withoutMark_of_cons hrest, Option.getD_some]
  exact (eq_append_iff_of_cons "\"" (by decide) hrest).symm

variable {e : Event} (hwell : e.token.toLexeme.WellFormed) (hfits : e.Fits)
  (hextent : Span.ofToken e.token = e.token.extent)
include hwell hfits hextent

theorem spansOf_variables (name : String) :
    spansOf (ofEvents [e]) .variables name = if e.binds name then [e.token.extent] else [] := by
  cases e with
  | binding form t =>
    have hname := unquoted_eq_iff hwell hfits name
    rw [← hextent]
    refine (spansOf_singleton ⟨.variables, unquoted t.text, .ofToken t⟩ _ _).trans ?_
    simp only [Event.token] at hname
    simp [Event.binds, Event.token, hname]
  | definition form t => cases form <;> rfl
  | _ => rfl

theorem spansOf_procedures (name : String) :
    spansOf (ofEvents [e]) .procedures name =
      if e.introduces name then [e.token.extent] else [] := by
  rcases e with t | t | t | t | t | ⟨form, t⟩ | ⟨_ | _, t⟩ | ⟨form, t⟩ | ⟨form, t⟩
  case definition.to =>
    rw [← hextent]
    refine (spansOf_singleton ⟨.procedures, t.text, .ofToken t⟩ _ _).trans ?_
    simp [Event.introduces, Event.token]
  case definition.define =>
    have hname := unquoted_eq_iff hwell hfits name
    rw [← hextent]
    refine (spansOf_singleton ⟨.procedures, unquoted t.text, .ofToken t⟩ _ _).trans ?_
    simp only [Event.token] at hname
    simp [Event.introduces, Event.token, hname]
  all_goals rfl

end Declaration

/-! ### Uses of names -/

/-- A reference is a variable's name behind a colon. -/
theorem Reference.declarations_of_colonName (index : List Declaration) {t : Token}
    (hwell : t.toLexeme.WellFormed) (hkind : t.kind = .colonName) :
    ∃ name, t.text = ":" ++ name ∧
      Reference.declarations index t = Declaration.spansOf index .variables name := by
  obtain ⟨rest, hrest⟩ := hwell.colon hkind
  refine ⟨String.ofList rest, ?_, ?_⟩
  · exact (Declaration.eq_append_iff_of_cons ":" (by decide) hrest).mpr rfl
  · rw [Reference.declarations, Declaration.withoutMark_of_cons hrest]

/-- A call is a procedure's name as it stands. -/
theorem Reference.declarations_of_name {index : List Declaration} {t : Token}
    (hwell : t.toLexeme.WellFormed) (hkind : t.kind = .name) :
    Reference.declarations index t = Declaration.spansOf index .procedures t.text := by
  obtain ⟨c, rest, hrest, hc⟩ := hwell.bare hkind
  have hne : c ≠ ':' := by
    rintro rfl
    exact absurd hc (by decide)
  rw [Reference.declarations, Declaration.withoutMark, hrest]
  simp [hne]

namespace Event

variable {events : List Event} {line character : Nat}

theorem uses_wellFormed (hwell : ∀ e ∈ events, e.token.toLexeme.WellFormed) :
    ∀ t ∈ Reference.ofEvents events, t.toLexeme.WellFormed := by
  rw [Reference.ofEvents_eq]
  intro t ht
  obtain ⟨e, he, rfl⟩ := List.mem_map.mp ht
  exact hwell e (List.mem_filter.mp he).1

theorem uses_pairwise_precedes (hprecedes : (events.map token).Pairwise Token.Precedes) :
    (Reference.ofEvents events).Pairwise Token.Precedes := by
  rw [Reference.ofEvents_eq]
  exact hprecedes.sublist (List.filter_sublist.map _)

section Reading

variable (hwell : ∀ e ∈ events, e.token.toLexeme.WellFormed)
  (hprecedes : (events.map token).Pairwise Token.Precedes)
include hwell hprecedes

theorem eq_of_position_eq {e f : Event} (he : e ∈ events) (hf : f ∈ events)
    (h : e.token.position = f.token.position) : e = f :=
  Token.eq_of_position_eq hwell (List.pairwise_map.mp hprecedes) he hf h

theorem under_eq_some_iff {t : Token} :
    Reference.under ⟨line + 1, character⟩ (Reference.ofEvents events).toArray = some t ↔
      ∃ e, UsedAt events line character e ∧ e.token = t := by
  rw [Reference.under_eq_some_iff (uses_wellFormed hwell) (uses_pairwise_precedes hprecedes),
    Reference.ofEvents_eq]
  constructor
  · rintro ⟨ht, htouched, hstarts⟩
    obtain ⟨e, he, rfl⟩ := List.mem_map.mp ht
    obtain ⟨hmem, hisUse⟩ := List.mem_filter.mp he
    refine ⟨e, ⟨hmem, hisUse, htouched, fun f hf hfuse hposition => ?_⟩, rfl⟩
    have htoken := hstarts f.token (List.mem_map_of_mem (List.mem_filter.mpr ⟨hf, hfuse⟩)) hposition
    exact eq_of_position_eq hwell hprecedes hf hmem (by rw [htoken])
  · rintro ⟨e, hused, rfl⟩
    refine ⟨List.mem_map_of_mem (List.mem_filter.mpr ⟨hused.mem, hused.isUse⟩), hused.touched, ?_⟩
    intro u hu hposition
    obtain ⟨f, hf, rfl⟩ := List.mem_map.mp hu
    obtain ⟨hmem, hisUse⟩ := List.mem_filter.mp hf
    rw [hused.starts f hmem hisUse hposition]

theorem UsedAt.unique {e f : Event} (he : UsedAt events line character e)
    (hf : UsedAt events line character f) : e = f := by
  have he' := (under_eq_some_iff hwell hprecedes).mpr ⟨e, he, rfl⟩
  have hf' := (under_eq_some_iff hwell hprecedes).mpr ⟨f, hf, rfl⟩
  have htoken : e.token = f.token := Option.some.inj (he'.symm.trans hf')
  exact eq_of_position_eq hwell hprecedes he.mem hf.mem (by rw [htoken])

/-- Some use is the one the cursor stands on as soon as one is touched. -/
theorem exists_usedAt {e : Event} (he : e ∈ events) (huse : e.isUse = true)
    (htouched : e.token.TouchedBy ⟨line + 1, character⟩) :
    ∃ f, UsedAt events line character f := by
  cases hunder : Reference.under ⟨line + 1, character⟩ (Reference.ofEvents events).toArray with
  | none =>
    have hnone := (Reference.under_eq_none_iff (uses_wellFormed hwell)
      (uses_pairwise_precedes hprecedes)).mp hunder
    rw [Reference.ofEvents_eq] at hnone
    exact absurd htouched (hnone _ (List.mem_map_of_mem (List.mem_filter.mpr ⟨he, huse⟩)))
  | some t =>
    obtain ⟨f, hf, _⟩ := (under_eq_some_iff hwell hprecedes).mp hunder
    exact ⟨f, hf⟩

end Reading

end Event

namespace Parsed

variable {text : String} {line character : Nat}

theorem ofText_wellFormed (text : String) :
    ∀ e ∈ (ofText text).events, e.token.toLexeme.WellFormed :=
  fun _ he => event_wellFormed he

theorem ofText_precedes (text : String) :
    ((ofText text).events.map Event.token).Pairwise Token.Precedes :=
  events_pairwise_precedes nestingLimit text.toList

theorem ofText_within {e : Event} (he : e ∈ (ofText text).events) :
    1 ≤ e.token.position.line ∧ e.token.position.line ≤ text.length ∧
      e.token.position.column + e.token.length ≤ text.length := by
  have hmem := (events_gathered nestingLimit text.toList).sublist.subset (List.mem_map_of_mem he)
  have hwithin := Scan.tokens_within hmem
  rwa [List.length_map, String.length_toList] at hwithin

/-- In a text that an editor can count, spans of tokens are told without loss. -/
theorem ofToken_eq_extent (htext : text.length < 2 ^ 32) {e : Event}
    (he : e ∈ (ofText text).events) : Span.ofToken e.token = e.token.extent := by
  have hwithin := ofText_within he
  simp only [Span.ofToken, Span.ofPlace, Token.extent, editorLine, coordinate, maxCoordinate,
    Span.mk.injEq]
  omega

/-- The extents of tokens come in reading order. -/
theorem extents_pairwise_before (text : String) (test : Event → Bool) :
    (((ofText text).events.filter test).map fun e => e.token.extent).Pairwise Span.Before := by
  have hprecedes := List.pairwise_map.mp (ofText_precedes text)
  refine List.pairwise_map.mpr ((hprecedes.imp_of_mem ?_).filter test)
  intro a b ha hb hab
  have hbefore := hab.before (ofText_wellFormed text a ha)
  have hline := (ofText_within ha).1
  simp only [Position.Before] at hbefore
  simp only [Span.Before, Token.extent]
  omega

theorem declarationsAt_of_reference (htext : text.length < 2 ^ 32) {r : Token}
    (h : Event.UsedAt (ofText text).events line character (.reference r)) :
    ∃ name, r.text = ":" ++ name ∧ (ofText text).declarationsAt line character =
      ((ofText text).events.filter (Event.binds name)).map fun e => e.token.extent := by
  have hunder := (Event.under_eq_some_iff (ofText_wellFormed text) (ofText_precedes text)).mpr
    ⟨_, h, rfl⟩
  have hfits := (events_gathered nestingLimit text.toList).fits
  obtain ⟨name, hname, hspans⟩ := Reference.declarations_of_colonName
    (Declaration.ofEvents (ofText text).events) (ofText_wellFormed text _ h.mem) (hfits _ h.mem)
  refine ⟨name, hname, ?_⟩
  rw [declarationsAt, Reference.resolve, hunder]
  refine hspans.trans (Declaration.spansOf_ofEvents fun e he => ?_)
  exact Declaration.spansOf_variables (ofText_wellFormed text e he) (hfits e he)
    (ofToken_eq_extent htext he) name

theorem declarationsAt_of_call (htext : text.length < 2 ^ 32) {r : Token}
    (h : Event.UsedAt (ofText text).events line character (.call r)) :
    (ofText text).declarationsAt line character =
      ((ofText text).events.filter (Event.introduces r.text)).map fun e => e.token.extent := by
  have hunder := (Event.under_eq_some_iff (ofText_wellFormed text) (ofText_precedes text)).mpr
    ⟨_, h, rfl⟩
  have hfits := (events_gathered nestingLimit text.toList).fits
  rw [declarationsAt, Reference.resolve, hunder]
  refine (Reference.declarations_of_name (ofText_wellFormed text _ h.mem) (hfits _ h.mem)).trans
    (Declaration.spansOf_ofEvents fun e he => ?_)
  exact Declaration.spansOf_procedures (ofText_wellFormed text e he) (hfits e he)
    (ofToken_eq_extent htext he) r.text

theorem declarationsAt_of_untouched
    (h : ∀ e ∈ (ofText text).events, e.isUse = true → ¬ e.token.TouchedBy ⟨line + 1, character⟩) :
    (ofText text).declarationsAt line character = [] := by
  have hunder : Reference.under ⟨line + 1, character⟩
      (Reference.ofEvents (ofText text).events).toArray = none := by
    rw [Reference.under_eq_none_iff (Event.uses_wellFormed (ofText_wellFormed text))
      (Event.uses_pairwise_precedes (ofText_precedes text)), Reference.ofEvents_eq]
    intro t ht
    obtain ⟨e, he, rfl⟩ := List.mem_map.mp ht
    obtain ⟨hmem, huse⟩ := List.mem_filter.mp he
    exact h e hmem huse
  rw [declarationsAt, Reference.resolve, hunder]

theorem declarationsAt_pairwise_before (htext : text.length < 2 ^ 32) (line character : Nat) :
    ((ofText text).declarationsAt line character).Pairwise Span.Before := by
  by_cases hused : ∃ e, Event.UsedAt (ofText text).events line character e
  · obtain ⟨e, he⟩ := hused
    cases e with
    | reference r =>
      obtain ⟨name, _, hspans⟩ := declarationsAt_of_reference htext he
      rw [hspans]
      exact extents_pairwise_before text _
    | call r =>
      rw [declarationsAt_of_call htext he]
      exact extents_pairwise_before text _
    | _ => exact absurd he.isUse (by simp [Event.isUse])
  · rw [declarationsAt_of_untouched]
    · exact .nil
    · intro e he huse htouched
      exact hused (Event.exists_usedAt (ofText_wellFormed text) (ofText_precedes text) he huse
        htouched)

end Parsed

/-- Declarations of the name under the cursor are all there, each once and in reading order: for a
reference, the words that bind its variable; for a call, the names that introduce its procedure. -/
theorem Document.declaration_setText (document : Document) (text : String) (line character : Nat)
    (htext : text.length < 2 ^ 32) :
    ∃ spans : List Span,
      (document.setText text).declaration line character =
          .ok (spans.map fun span => ⟨document.uri, span⟩) ∧
        spans.Pairwise Span.Before ∧
        (∀ r, Event.UsedAt (Parsed.ofText text).events line character (.reference r) →
          ∃ name, r.text = ":" ++ name ∧
            spans = ((Parsed.ofText text).events.filter (Event.binds name)).map (·.token.extent)) ∧
        (∀ r, Event.UsedAt (Parsed.ofText text).events line character (.call r) →
          spans =
            ((Parsed.ofText text).events.filter (Event.introduces r.text)).map (·.token.extent)) ∧
        (∀ e ∈ (Parsed.ofText text).events, e.isUse = true →
          e.token.TouchedBy ⟨line + 1, character⟩ →
          ∃! f, Event.UsedAt (Parsed.ofText text).events line character f) ∧
        ((∀ e ∈ (Parsed.ofText text).events, e.isUse = true →
          ¬ e.token.TouchedBy ⟨line + 1, character⟩) → spans = []) := by
  have hwell := Parsed.ofText_wellFormed text
  have hprecedes := Parsed.ofText_precedes text
  refine ⟨(Parsed.ofText text).declarationsAt line character, rfl,
    Parsed.declarationsAt_pairwise_before htext line character,
    fun r hr => Parsed.declarationsAt_of_reference htext hr,
    fun r hr => Parsed.declarationsAt_of_call htext hr, ?_, Parsed.declarationsAt_of_untouched⟩
  intro e he huse htouched
  obtain ⟨f, hf⟩ := Event.exists_usedAt hwell hprecedes he huse htouched
  exact ⟨f, hf, fun g hg => hg.unique hwell hprecedes hf⟩

theorem Document.declaration_of_make :
    ∃ spans : List Span,
      (Document.setText { uri := "logo:a" } "make \"a 1\nfd :a").declaration 1 4 =
          .ok (spans.map fun span => ⟨"logo:a", span⟩) ∧ spans = [⟨0, 5, 7⟩] := by
  obtain ⟨spans, hspans, _, hreference, _⟩ :=
    Document.declaration_setText { uri := "logo:a" } "make \"a 1\nfd :a" 1 4 (by decide)
  refine ⟨spans, hspans, ?_⟩
  obtain ⟨name, hname, rfl⟩ := hreference ⟨⟨.colonName, ":a"⟩, ⟨2, 3⟩⟩
    ⟨by decide +kernel, rfl, ⟨rfl, by decide, by decide⟩, by decide +kernel⟩
  obtain rfl : name = "a" := by
    rw [← String.toList_inj] at hname ⊢
    simpa using hname.symm
  decide +kernel

end LogoServer
