import LogoServer.Proofs.Analysis.Highlight
import Mathlib.Tactic

/-! A text without errors is coloured completely. Its tokens are the coloured ones, brackets,
parentheses and operators, and those that a reader takes as they stand: bare words of literal lists
and the parameters behind `to`. -/
namespace LogoServer

open Grammar Highlight

/-- Brackets, parentheses and operators. -/
def Kind.isPunctuation : Kind → Bool
  | .leftBracket | .rightBracket | .leftParen | .rightParen => true
  | kind => kind.isComparison || kind.isAdditive || kind.isMultiplicative

/-! ### Plain tokens -/

mutual
/-- Tokens that stand for themselves in a literal list. -/
def Datum.plain : Datum → List Token
  | .atom t => [t]
  | .list items => Datum.plainOfAll items
  | .number _ | .word _ => []

def Datum.plainOfAll : List Datum → List Token
  | [] => []
  | item :: items => item.plain ++ Datum.plainOfAll items
end

mutual
def Expr.plain : Expr → List Token
  | .list items => Datum.plainOfAll items
  | .query _ inputs => Expr.plainOfAll inputs
  | .binary left _ right => left.plain ++ right.plain
  | .group inner => inner.plain
  | .number _ | .word _ | .reference _ | .missing => []

def Expr.plainOfAll : List Expr → List Token
  | [] => []
  | e :: es => e.plain ++ Expr.plainOfAll es
end

mutual
def Argument.plain : Argument → List Token
  | .expr value => value.plain
  | .block body => Statement.plainOfAll body

def Argument.plainOfAll : List Argument → List Token
  | [] => []
  | a :: as => a.plain ++ Argument.plainOfAll as

/-- Bare words of the literal lists in a statement, and the parameters behind each `to`. -/
def Statement.plain : Statement → List Token
  | .command _ arguments => Argument.plainOfAll arguments
  | .setPosition _ _ value | .binding _ _ _ value => value.plain
  | .definition .to _ _ parameters body _ => parameters ++ Statement.plainOfAll body
  | .definition .define _ _ _ body _ => Statement.plainOfAll body
  | .loop _ _ _ bounds body => Expr.plainOfAll bounds ++ Statement.plainOfAll body
  | .call _ inputs => Expr.plainOfAll inputs

def Statement.plainOfAll : List Statement → List Token
  | [] => []
  | s :: ss => s.plain ++ Statement.plainOfAll ss
end

/-! ### Coloured tokens -/

/-- The token of an event, if it is coloured. -/
def Event.coloured? (e : Event) : Option Token :=
  e.colour?.map fun _ => e.token

theorem Event.Fits.not_isPunctuation {e : Event} (h : e.Fits) :
    e.token.kind.isPunctuation = false := by
  rcases e with t | t | t | t | t | ⟨form, t⟩ | ⟨_ | _, t⟩ | ⟨_ | _, t⟩ | ⟨form, t⟩
  case keyword =>
    obtain ⟨k, hk⟩ := h
    simp only [token, hk]
    rfl
  all_goals
    have hk : t.kind = _ := h
    simp only [token, hk]
    rfl

/-- The events colour all of the tokens but punctuation and those that are plain. -/
structure Shown (es : List Event) (plain ts : List Token) : Prop where
  subset : plain ⊆ ts
  /-- Told for tokens that are told apart, as those of a text are by their places. -/
  eq_filter : ts.Nodup → es.filterMap Event.coloured? =
    ts.filter fun t => t.kind.isPunctuation = false ∧ t ∉ plain

namespace Shown

variable {es fs : List Event} {ps qs ts us : List Token} {e : Event} {t : Token}

theorem nil : Shown [] [] [] :=
  ⟨List.Subset.refl _, fun _ => rfl⟩

theorem append (h : Shown es ps ts) (h' : Shown fs qs us) :
    Shown (es ++ fs) (ps ++ qs) (ts ++ us) where
  subset := List.append_subset.mpr
    ⟨List.Subset.trans h.subset (List.subset_append_left _ _),
      List.Subset.trans h'.subset (List.subset_append_right _ _)⟩
  eq_filter hnodup := by
    obtain ⟨hts, hus, hapart⟩ := List.nodup_append'.mp hnodup
    rw [List.filterMap_append, List.filter_append, h.eq_filter hts, h'.eq_filter hus]
    congr 1
    · refine List.filter_congr fun t ht => ?_
      have hqs : t ∉ qs := fun hq => hapart ht (h'.subset hq)
      simp [hqs]
    · refine List.filter_congr fun t ht => ?_
      have hps : t ∉ ps := fun hp => hapart (h.subset hp) ht
      simp [hps]

theorem event (hcolour : e.colour?.isSome = true) (hfits : e.Fits) : Shown [e] [] [e.token] where
  subset := List.nil_subset _
  eq_filter _ := by
    obtain ⟨colour, hcolour⟩ := Option.isSome_iff_exists.mp hcolour
    simp [Event.coloured?, hcolour, hfits.not_isPunctuation]

theorem plain (he : e.colour? = none) : Shown [e] [e.token] [e.token] where
  subset := List.Subset.refl _
  eq_filter _ := by simp [Event.coloured?, he]

/-- Plain tokens of literal lists have no events. -/
theorem atom (t : Token) : Shown [] [t] [t] where
  subset := List.Subset.refl _
  eq_filter _ := by simp

theorem mark (ht : t.kind.isPunctuation = true) : Shown [] [] [t] where
  subset := List.nil_subset _
  eq_filter _ := by simp [ht]

theorem cons (hcolour : e.colour?.isSome = true) (hfits : e.Fits) (h : Shown es ps ts) :
    Shown (e :: es) ps (e.token :: ts) :=
  (event hcolour hfits).append h

theorem behind (ht : t.kind.isPunctuation = true) (h : Shown es ps ts) : Shown es ps (t :: ts) :=
  (mark ht).append h

theorem before (h : Shown es ps ts) (ht : t.kind.isPunctuation = true) :
    Shown es ps (ts ++ [t]) := by
  simpa using h.append (mark ht)

theorem inBrackets {opening closing : Token} (hopening : opening.kind = .leftBracket)
    (h : Shown es ps ts) (hclosing : closing.kind = .rightBracket) :
    Shown es ps (opening :: (ts ++ [closing])) :=
  (h.before (by rw [hclosing]; rfl)).behind (by rw [hopening]; rfl)

theorem inParens {opening closing : Token} (hopening : opening.kind = .leftParen)
    (h : Shown es ps ts) (hclosing : closing.kind = .rightParen) :
    Shown es ps (opening :: (ts ++ [closing])) :=
  (h.before (by rw [hclosing]; rfl)).behind (by rw [hopening]; rfl)

theorem bare {parameters : List Token} (h : ∀ p ∈ parameters, p.kind = .name) :
    Shown (parameters.map (.parameter .define)) [] parameters := by
  induction parameters with
  | nil => exact nil
  | cons p parameters ih =>
    obtain ⟨hp, hparameters⟩ := List.forall_mem_cons.mp h
    exact cons (e := .parameter .define p) rfl hp (ih hparameters)

theorem behindTo (parameters : List Token) :
    Shown (parameters.map (.parameter .to)) parameters parameters := by
  induction parameters with
  | nil => exact nil
  | cons p parameters ih => exact (plain (e := .parameter .to p) rfl).append ih

theorem closing {final : Option Token} (h : ∀ t ∈ final, t.kind = .keyword .end_) :
    Shown (Event.ofOption .keyword final) [] final.toList := by
  cases final with
  | none => exact nil
  | some t => exact event (e := .keyword t) rfl ⟨.end_, h t rfl⟩

end Shown

/-! ### Derivations -/

namespace Grammar

mutual
theorem Element.shown {item : Datum} {ts : List Token} :
    Element item ts → Shown item.events item.plain ts
  | .number ht => .event (e := .number _) rfl ht
  | .word ht => .event (e := .word _) rfl ht
  | .atom _ => .atom _
  | .list hopening hitems hclosing => (Each.elements_shown hitems).inBrackets hopening hclosing

theorem Each.elements_shown {items : List Datum} {ts : List Token} :
    Each Element items ts → Shown (Datum.eventsOfAll items) (Datum.plainOfAll items) ts
  | .nil => .nil
  | .cons head tail => head.shown.append (Each.elements_shown tail)
end

theorem Tier.isPunctuation_of_joins {tier : Tier} {kind : Kind} (h : tier.joins kind = true) :
    kind.isPunctuation = true := by
  cases tier <;> cases kind <;> first | rfl | cases h

mutual
theorem Phrase.shown {tier : Tier} {e : Expr} {ts : List Token} :
    Phrase tier e ts → Shown e.events e.plain ts
  | .number ht => .event (e := .number _) rfl ht
  | .word ht => .event (e := .word _) rfl ht
  | .reference ht => .event (e := .reference _) rfl ht
  | .list hopening hitems hclosing => (Each.elements_shown hitems).inBrackets hopening hclosing
  | .query ht _ _ _ hinputs => hinputs.shown.cons (e := .keyword _) rfl ⟨_, ht⟩
  | .enclosedQuery hopening ht _ hinputs hclosing =>
    (hinputs.shown.cons (e := .keyword _) rfl ⟨_, ht⟩).inParens hopening hclosing
  | .group hopening hinner hclosing => hinner.shown.inParens hopening hclosing
  | .single h => h.shown
  | .link hleft hoperator hright =>
    hleft.shown.append (hright.shown.behind (Tier.isPunctuation_of_joins hoperator))

theorem Phrases.shown {tier : Tier} {es : List Expr} {ts : List Token} :
    Phrases tier es ts → Shown (Expr.eventsOfAll es) (Expr.plainOfAll es) ts
  | .nil => .nil
  | .cons head tail => head.shown.append tail.shown
end

theorem shown_to {t name closing : Token} {parameters : List Token} {body : List Statement}
    {ts : List Token} (ht : t.kind = .keyword .to) (hname : name.kind = .name)
    (hbody : Shown (Statement.eventsOfAll body) (Statement.plainOfAll body) ts)
    (hclosing : closing.kind = .keyword .end_) :
    Shown (Statement.definition .to t (some name) parameters body (some closing)).events
      (Statement.definition .to t (some name) parameters body (some closing)).plain
      (t :: name :: (parameters ++ (ts ++ [closing]))) := by
  have hend : Shown [.keyword closing] [] [closing] := .event (e := .keyword _) rfl ⟨_, hclosing⟩
  have hrest := (Shown.behindTo parameters).append (hbody.append hend)
  have hwhole := (hrest.cons (e := .definition .to name) rfl hname).cons (e := .keyword t) rfl
    ⟨_, ht⟩
  simpa [Statement.events, Statement.plain, Event.ofOption, Event.token] using hwhole

theorem shown_define {t name opening closing opening' closing' : Token} {parameters : List Token}
    {body : List Statement} {ts : List Token} {final : Option Token}
    (ht : t.kind = .keyword .define) (hname : name.kind = .word)
    (hopening : opening.kind = .leftBracket) (hopening' : opening'.kind = .leftBracket)
    (hparameters : ∀ p ∈ parameters, p.kind = .name) (hclosing' : closing'.kind = .rightBracket)
    (hbody : Shown (Statement.eventsOfAll body) (Statement.plainOfAll body) ts)
    (hclosing : closing.kind = .rightBracket) (hfinal : ∀ e ∈ final, e.kind = .keyword .end_) :
    Shown (Statement.definition .define t (some name) parameters body final).events
      (Statement.definition .define t (some name) parameters body final).plain
      (t :: name :: opening :: opening' ::
        (parameters ++ closing' :: (ts ++ closing :: final.toList))) := by
  have hinner := (Shown.bare hparameters).inBrackets hopening' hclosing'
  have hrest := ((hinner.append hbody).inBrackets hopening hclosing).append (.closing hfinal)
  have hwhole := (hrest.cons (e := .definition .define name) rfl hname).cons (e := .keyword t) rfl
    ⟨_, ht⟩
  simpa [Statement.events, Statement.plain, Event.ofOption, Event.token] using hwhole

theorem shown_loop {form : LoopForm} {t opening counter closing : Token} {bounds : List Expr}
    {body : List Statement} {ts us : List Token} (ht : t.kind = .keyword form.keyword)
    (hopening : opening.kind = .leftBracket) (hcounter : counter.kind = .name)
    (hbounds : Shown (Expr.eventsOfAll bounds) (Expr.plainOfAll bounds) ts)
    (hclosing : closing.kind = .rightBracket)
    (hbody : Shown (Statement.eventsOfAll body) (Statement.plainOfAll body) us) :
    Shown (Statement.loop form t (some counter) bounds body).events
      (Statement.loop form t (some counter) bounds body).plain
      (t :: opening :: counter :: (ts ++ closing :: us)) := by
  have hcolour : (Event.counter form counter).colour?.isSome = true := by
    cases form <;> rfl
  have hhead := (hbounds.cons hcolour hcounter).inBrackets hopening hclosing
  have hwhole := (hhead.append hbody).cons (e := .keyword t) rfl ⟨_, ht⟩
  simpa [Statement.events, Statement.plain, Event.ofOption, Event.token] using hwhole

mutual
/-- All tokens of a statement are coloured but punctuation and those that are plain. -/
theorem Sentence.shown {s : Statement} {ts : List Token} : Sentence s ts → Shown s.events s.plain ts
  | .command ht _ harguments => harguments.shown.cons (e := .keyword _) rfl ⟨_, ht⟩
  | .setPosition ht htarget hvalue =>
    (hvalue.shown.cons (e := .keyword _) rfl ⟨_, htarget⟩).cons (e := .keyword _) rfl ⟨_, ht⟩
  | .to ht hname _ hbody hclosing => shown_to ht hname (Each.sentences_shown hbody) hclosing
  | .define ht hname hopening hopening' hparameters hclosing' hbody hclosing hfinal =>
    shown_define ht hname hopening hopening' hparameters hclosing' hbody.shown hclosing hfinal
  | @Sentence.binding form _ _ _ _ hform ht hname hvalue => by
    have hwhole := (hvalue.shown.cons (e := .binding form _) rfl hname).cons (e := .keyword _) rfl
      ⟨_, ht⟩
    cases form with
    | name => exact absurd rfl hform
    | make | localmake => exact hwhole
  | .name ht hvalue hname => by
    have hword : Shown [.binding .name _] [] [_] := .event (e := .binding .name _) rfl hname
    have hwhole := (hvalue.shown.append hword).cons (e := .keyword _) rfl ⟨_, ht⟩
    simpa [Statement.events, Statement.plain, Event.ofOption, Event.token] using hwhole
  | .loop ht hopening hcounter _ _ hbounds hclosing hbody =>
    shown_loop ht hopening hcounter hbounds.shown hclosing hbody.shown
  | .call ht hinputs => hinputs.shown.cons (e := .call _) rfl ht

theorem Each.sentences_shown {ss : List Statement} {ts : List Token} :
    Each Sentence ss ts → Shown (Statement.eventsOfAll ss) (Statement.plainOfAll ss) ts
  | .nil => .nil
  | .cons head tail => head.shown.append (Each.sentences_shown tail)

theorem Block.shown {body : List Statement} {ts : List Token} :
    Block body ts → Shown (Statement.eventsOfAll body) (Statement.plainOfAll body) ts
  | .mk hopening hbody hclosing => (Each.sentences_shown hbody).inBrackets hopening hclosing

theorem Filling.shown {slots : List Slot} {arguments : List Argument} {ts : List Token} :
    Filling slots arguments ts →
      Shown (Argument.eventsOfAll arguments) (Argument.plainOfAll arguments) ts
  | .nil => .nil
  | .expr hvalue h => hvalue.shown.append h.shown
  | .block hbody h => hbody.shown.append h.shown
end

end Grammar

/-! ### Texts -/

/-- Where an editor has the start of the token: line and character, both from zero. -/
def Token.editorPlace (t : Token) : Nat × Nat :=
  (t.position.line - 1, t.position.column)

def Highlight.Shade.place (a : Shade) : Nat × Nat :=
  (a.line, a.start)

namespace Parsed

theorem map_place_shades (es : List Event) :
    (es.filterMap Event.shade?).map Shade.place =
      (es.filterMap Event.coloured?).map Token.editorPlace := by
  rw [List.map_filterMap, List.map_filterMap]
  refine List.filterMap_congr fun e _ => ?_
  rw [Event.shade?, Event.coloured?, Option.map_map, Option.map_map]
  rfl

theorem foldedTokens_nodup (text : List Char) : (foldedTokens text).Nodup := by
  have hbefore := (List.pairwise_append.mp (Scan.stream_pairwise_before
    (text.map Text.foldCase))).1
  refine hbefore.imp fun {t u} htu heq => ?_
  exact Position.not_before_self _ (heq ▸ htu)

/-- In a text without errors an editor is told to colour all tokens but brackets, parentheses,
operators, bare words of literal lists and the parameters behind `to`, each of them once. -/
theorem highlighting_complete (text : String) (htext : text.length < 2 ^ 32)
    (h : (ofText text).errors = []) :
    (Shade.decode (ofText text).highlighting).map Shade.place =
        ((foldedTokens text.toList).filter fun t =>
          t.kind.isPunctuation = false ∧ t ∉ Statement.plainOfAll (ofText text).statements).map
            Token.editorPlace ∧
      ((Shade.decode (ofText text).highlighting).map Shade.place).Nodup := by
  have hshown := Each.sentences_shown (derived_of_errors_eq_nil h)
  rw [decode_eq_shades htext]
  constructor
  · rw [map_place_shades]
    exact congrArg (List.map Token.editorPlace) (hshown.eq_filter (foldedTokens_nodup _))
  · refine List.pairwise_map.mpr ((shades_pairwise text).imp fun {a b} hab heq => ?_)
    obtain ⟨hline, hstart⟩ := Prod.mk.inj heq
    rcases hab.1 with hbefore | ⟨_, hbefore⟩ <;> omega

theorem highlighting_complete_of_procedure :
    (Shade.decode (ofText "to f :n\nprint (:n + 1) show [a 2]\nend").highlighting).map Shade.place =
      [(0, 0), (0, 3), (1, 0), (1, 7), (1, 12), (1, 15), (1, 23), (2, 0)] := by
  rw [(highlighting_complete "to f :n\nprint (:n + 1) show [a 2]\nend" (by decide)
    (by decide +kernel)).1]
  decide +kernel

end Parsed

end LogoServer
