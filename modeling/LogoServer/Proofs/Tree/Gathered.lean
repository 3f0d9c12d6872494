import LogoServer.Proofs.Parser.Grammar
import LogoServer.Tree.Event
import Mathlib.Tactic

/-! Events that tell of tokens in the order in which they were read, each of a kind that its part in
the tree asks for. -/
namespace LogoServer

/-- The token is of a kind that can play the part. -/
def Event.Fits : Event → Prop
  | .keyword t => ∃ k, t.kind = .keyword k
  | .number t => t.kind = .number
  | .word t => t.kind = .word
  | .reference t => t.kind = .colonName
  | .call t => t.kind = .name
  | .binding _ t => t.kind = .word
  | .definition .to t => t.kind = .name
  | .definition .define t => t.kind = .word
  | .parameter .to t => t.kind = .colonName
  | .parameter .define t => t.kind = .name
  | .counter _ t => t.kind = .name

theorem Event.Fits.kind_ne_eof {e : Event} (h : e.Fits) : e.token.kind ≠ .eof := by
  cases e with
  | keyword t =>
    obtain ⟨k, hk⟩ := h
    simp [token, hk]
  | definition form t => cases form <;> simp_all [Fits, token]
  | parameter form t => cases form <;> simp_all [Fits, token]
  | _ => simp_all [Fits, token]

/-- The events are about some of the tokens, in their order, and every token fits its part. -/
structure Gathered (events : List Event) (tokens : List Token) : Prop where
  sublist : (events.map Event.token).Sublist tokens
  fits : ∀ e ∈ events, e.Fits

namespace Gathered

variable {es fs : List Event} {ts us : List Token}

theorem nil (ts : List Token) : Gathered [] ts :=
  ⟨List.nil_sublist _, by simp⟩

theorem append (h : Gathered es ts) (h' : Gathered fs us) : Gathered (es ++ fs) (ts ++ us) := by
  refine ⟨?_, ?_⟩
  · rw [List.map_append]
    exact h.sublist.append h'.sublist
  · intro e he
    rcases List.mem_append.mp he with he | he
    · exact h.fits e he
    · exact h'.fits e he

theorem single {e : Event} (h : e.Fits) : Gathered [e] [e.token] :=
  ⟨by simp, by simpa using h⟩

theorem cons {e : Event} (he : e.Fits) (h : Gathered es ts) : Gathered (e :: es) (e.token :: ts) :=
  (single he).append h

/-- Tokens without a part may come first. -/
theorem behind (us : List Token) (h : Gathered es ts) : Gathered es (us ++ ts) :=
  (nil us).append h

/-- Tokens without a part may come last. -/
theorem before (us : List Token) (h : Gathered es ts) : Gathered es (ts ++ us) := by
  simpa using h.append (nil us)

theorem ofOption {event : Token → Event} {found : Option Token}
    (h : ∀ t ∈ found, (event t).Fits ∧ (event t).token = t) :
    Gathered (Event.ofOption event found) found.toList := by
  cases found with
  | none => exact nil _
  | some t =>
    obtain ⟨hfits, htoken⟩ := h t rfl
    simpa [Event.ofOption, htoken] using single hfits

theorem map {event : Token → Event} (h : ∀ t ∈ ts, (event t).Fits ∧ (event t).token = t) :
    Gathered (ts.map event) ts := by
  induction ts with
  | nil => exact nil _
  | cons t ts ih =>
    obtain ⟨hfits, htoken⟩ := h t List.mem_cons_self
    simpa [htoken] using cons hfits (ih fun t ht => h t (List.mem_cons_of_mem _ ht))

theorem flatMap {α : Type} {events : α → List Event} {as : List α}
    (h : Grammar.Each (fun a ts => Gathered (events a) ts) as ts) :
    Gathered (as.flatMap events) ts := by
  induction h with
  | nil => exact nil _
  | cons head _ ih =>
    rw [List.flatMap_cons]
    exact head.append ih

end Gathered

theorem Datum.eventsOfAll_eq (items : List Datum) :
    Datum.eventsOfAll items = items.flatMap Datum.events := by
  induction items with
  | nil => rfl
  | cons item items ih => rw [Datum.eventsOfAll, ih, List.flatMap_cons]

theorem Expr.eventsOfAll_eq (es : List Expr) : Expr.eventsOfAll es = es.flatMap Expr.events := by
  induction es with
  | nil => rfl
  | cons e es ih => rw [Expr.eventsOfAll, ih, List.flatMap_cons]

theorem Statement.eventsOfAll_eq (ss : List Statement) :
    Statement.eventsOfAll ss = ss.flatMap Statement.events := by
  induction ss with
  | nil => rfl
  | cons s ss ih => rw [Statement.eventsOfAll, ih, List.flatMap_cons]

end LogoServer
