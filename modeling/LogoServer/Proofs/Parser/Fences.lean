import LogoServer.Proofs.Parser.Grammar
import LogoServer.Proofs.Tree.Trimmed
import Mathlib.Tactic

/-! Counting openers and closers passes over whole constructs. In what the grammar derives they come
in pairs, except where a literal list quotes them and behind `define`, whose `end` has no opener of
its own. -/
namespace LogoServer

open Grammar LogoServer.Parser

namespace Fence

/-- A kind that is not counted. -/
def Ignores (f : Fence) (kind : Kind) : Prop :=
  kind ≠ f.opener ∧ kind ≠ f.closer

/-- Two kinds that enclose something: either these are the ones that are counted, or neither is. -/
def Pairs (f : Fence) (opening closing : Kind) : Prop :=
  opening = f.opener ∧ opening ≠ f.closer ∧ closing = f.closer ∨
    f.Ignores opening ∧ f.Ignores closing

/-- Kinds that one fence or another counts. -/
def kinds : List Kind :=
  [.leftBracket, .rightBracket, .leftParen, .rightParen, .keyword .to, .keyword .end_, .eof]

/-- What this fence counts cannot be quoted in a literal list: only parentheses and the keywords
around a procedure can. -/
def isStrict : Fence → Bool
  | .parens | .scope .procedure => false
  | .scope .block | .scope .document => true

variable {f : Fence}

theorem pairs_brackets (f : Fence) : f.Pairs .leftBracket .rightBracket := by
  rcases f with _ | _ | _ | _ <;> simp [Pairs, Ignores, opener, closer, Scope.opener, Scope.closer]

theorem pairs_parens (f : Fence) : f.Pairs .leftParen .rightParen := by
  rcases f with _ | _ | _ | _ <;> simp [Pairs, Ignores, opener, closer, Scope.opener, Scope.closer]

theorem pairs_procedure (f : Fence) : f.Pairs (.keyword .to) (.keyword .end_) := by
  rcases f with _ | _ | _ | _ <;> simp [Pairs, Ignores, opener, closer, Scope.opener, Scope.closer]

theorem ignores_of_notMem {kind : Kind} (h : kind ∉ kinds) : f.Ignores kind := by
  simp only [kinds, List.mem_cons, List.not_mem_nil, or_false, not_or] at h
  rcases f with _ | _ | _ | _ <;> simp [Ignores, opener, closer, Scope.opener, Scope.closer, h]

/-- A quoted token is not counted, unless it is a stray one. -/
theorem ignores_quoted {kind : Kind}
    (hkind : kind ∉ [.number, .word, .leftBracket, .rightBracket, .eof])
    (h : f.isStrict = true ∨ f.counts kind = false) : f.Ignores kind := by
  rcases h with h | h
  · simp only [List.mem_cons, List.not_mem_nil, or_false, not_or] at hkind
    rcases f with _ | _ | _ | _
    · cases h
    · simp [Ignores, opener, closer, Scope.opener, Scope.closer, hkind]
    · simp [Ignores, opener, closer, Scope.opener, Scope.closer, hkind]
    · cases h
  · simpa [counts, Ignores] using h

section Counting

variable {opener closer : Kind} {t : Token}

theorem closerOffset_ignored (hcloser : t.kind ≠ closer) (hopener : t.kind ≠ opener) (depth : Nat)
    (ts : List Token) :
    closerOffset opener closer depth (t :: ts) = closerOffset opener closer depth ts + 1 := by
  cases depth <;> simp [closerOffset, hcloser, hopener]

theorem closerOffset_opener (hcloser : t.kind ≠ closer) (hopener : t.kind = opener) (depth : Nat)
    (ts : List Token) :
    closerOffset opener closer depth (t :: ts) = closerOffset opener closer (depth + 1) ts + 1 := by
  rw [hopener] at hcloser
  cases depth <;> simp [closerOffset, hcloser, hopener]

end Counting

/-- Counting goes on behind the tokens as it did before them. -/
def Passes (f : Fence) (ts : List Token) : Prop :=
  ∀ depth rest, closerOffset f.opener f.closer depth (ts ++ rest) =
    ts.length + closerOffset f.opener f.closer depth rest

namespace Passes

variable {ts us : List Token}

theorem nil (f : Fence) : f.Passes [] := by
  intro depth rest
  simp

theorem append (h : f.Passes ts) (h' : f.Passes us) : f.Passes (ts ++ us) := by
  intro depth rest
  rw [List.append_assoc, h, h', List.length_append, Nat.add_assoc]

theorem cons {t : Token} (ht : f.Ignores t.kind) (h : f.Passes ts) : f.Passes (t :: ts) := by
  intro depth rest
  rw [List.cons_append, closerOffset_ignored ht.2 ht.1, h, List.length_cons]
  omega

/-- A token of a kind that no fence counts. -/
theorem behind {t : Token} {kind : Kind} (h : f.Passes ts) (ht : t.kind = kind)
    (hkind : kind ∉ kinds) : f.Passes (t :: ts) :=
  h.cons (ht ▸ ignores_of_notMem hkind)

theorem all {kind : Kind} (hts : ∀ t ∈ ts, t.kind = kind) (hkind : kind ∉ kinds) :
    f.Passes ts := by
  induction ts with
  | nil => exact nil f
  | cons t ts ih =>
    obtain ⟨ht, hts⟩ := List.forall_mem_cons.mp hts
    exact (ih hts).behind ht hkind

/-- What is enclosed is passed over with what encloses it. -/
theorem enclose {opening closing : Token} {openingKind closingKind : Kind}
    (hpairs : f.Pairs openingKind closingKind) (hopening : opening.kind = openingKind)
    (hclosing : closing.kind = closingKind) (h : f.Passes ts) (h' : f.Passes us) :
    f.Passes (opening :: (ts ++ closing :: us)) := by
  subst openingKind closingKind
  rcases hpairs with ⟨hopener, hne, hcloser⟩ | ⟨hopening, hclosing⟩
  · intro depth rest
    rw [List.cons_append, List.append_assoc, closerOffset_opener hne hopener, h,
      List.cons_append, closerOffset, if_pos hcloser]
    simp only [h' depth rest, List.length_cons, List.length_append]
    omega
  · exact (h.append (h'.cons hclosing)).cons hopening

/-- The closer that leaves nothing open is found behind the tokens. -/
theorem closerOffset_eq {closing : Token} (h : f.Passes ts) (hclosing : closing.kind = f.closer)
    (rest : List Token) :
    closerOffset f.opener f.closer 0 (ts ++ closing :: rest) = ts.length := by
  rw [h, closerOffset, if_pos hclosing, Nat.add_zero]

end Passes

end Fence

namespace Grammar

open Fence

variable {f : Fence}

/-- What is spared as a whole is spared in its parts. -/
theorem spares_or {a b : Bool} (h : f.isStrict = true ∨ (a || b) = false) :
    (f.isStrict = true ∨ a = false) ∧ (f.isStrict = true ∨ b = false) := by
  rcases h with h | h
  · exact ⟨.inl h, .inl h⟩
  · obtain ⟨ha, hb⟩ := Bool.or_eq_false_iff.mp h
    exact ⟨.inr ha, .inr hb⟩

/-! ### Literal lists and expressions -/

mutual
/-- Elements of literal lists are passed over if they quote nothing that is counted. -/
theorem Element.passes {item : Datum} {ts : List Token} :
    Element item ts → f.isStrict = true ∨ item.strays f = false → f.Passes ts
  | .number ht, _ | .word ht, _ => (Passes.nil f).behind ht (by decide)
  | .atom ht, h => (Passes.nil f).cons (ignores_quoted ht h)
  | .list hopening hitems hclosing, h =>
    .enclose f.pairs_brackets hopening hclosing (Each.elements_passes hitems h) (.nil f)

theorem Each.elements_passes {items : List Datum} {ts : List Token} :
    Each Element items ts → f.isStrict = true ∨ Datum.anyStrays f items = false → f.Passes ts
  | .nil, _ => .nil f
  | .cons head tail, h =>
    (head.passes (spares_or h).1).append (Each.elements_passes tail (spares_or h).2)
end

theorem Tier.notMem_kinds_of_joins {tier : Tier} {kind : Kind} (h : tier.joins kind = true) :
    kind ∉ Fence.kinds := by
  intro hmem
  simp only [Fence.kinds, List.mem_cons, List.not_mem_nil, or_false] at hmem
  rcases hmem with rfl | rfl | rfl | rfl | rfl | rfl | rfl <;> cases tier <;> cases h

theorem keyword_notMem_kinds {k : Keyword} (hto : k ≠ .to) (hend : k ≠ .end_) :
    .keyword k ∉ Fence.kinds := by
  simp [Fence.kinds, hto, hend]

theorem notMem_kinds_of_isParenthesizedQuery {k : Keyword} (h : k.isParenthesizedQuery = true) :
    .keyword k ∉ Fence.kinds := by
  refine keyword_notMem_kinds ?_ ?_ <;>
    rintro rfl <;> cases h

theorem notMem_kinds_of_queryArity? {k : Keyword} {arity : Arity}
    (h : k.queryArity? = some arity) : .keyword k ∉ Fence.kinds := by
  refine keyword_notMem_kinds ?_ ?_ <;>
    rintro rfl <;> cases h

mutual
theorem Phrase.passes {tier : Tier} {e : Expr} {ts : List Token} :
    Phrase tier e ts → f.isStrict = true ∨ e.strays f = false → f.Passes ts
  | .number ht, _ | .word ht, _ | .reference ht, _ => (Passes.nil f).behind ht (by decide)
  | .list hopening hitems hclosing, h =>
    .enclose f.pairs_brackets hopening hclosing (Each.elements_passes hitems h) (.nil f)
  | .query ht harity _ _ hinputs, h =>
    (hinputs.passes h).behind ht (notMem_kinds_of_queryArity? harity)
  | .enclosedQuery hopening ht hk hinputs hclosing, h =>
    .enclose f.pairs_parens hopening hclosing
      ((hinputs.passes h).behind ht (notMem_kinds_of_isParenthesizedQuery hk)) (.nil f)
  | .group hopening hinner hclosing, h =>
    .enclose f.pairs_parens hopening hclosing (hinner.passes h) (.nil f)
  | .single hphrase, h => hphrase.passes h
  | .link hleft hoperator hright, h =>
    (hleft.passes (spares_or h).1).append
      ((hright.passes (spares_or h).2).behind rfl (Tier.notMem_kinds_of_joins hoperator))

theorem Phrases.passes {tier : Tier} {es : List Expr} {ts : List Token} :
    Phrases tier es ts → f.isStrict = true ∨ Expr.anyStrays f es = false → f.Passes ts
  | .nil, _ => .nil f
  | .cons head tail, h => (head.passes (spares_or h).1).append (tail.passes (spares_or h).2)
end

/-! ### Statements -/

theorem notMem_kinds_of_command {k : Keyword} {slots : List Slot}
    (h : k.statementForm? = some (.command slots)) : .keyword k ∉ Fence.kinds := by
  refine keyword_notMem_kinds ?_ ?_ <;>
    rintro rfl <;> cases h

theorem notMem_kinds_binding (form : BindingForm) : .keyword form.keyword ∉ Fence.kinds := by
  cases form <;> decide

theorem passes_to {t name closing : Token} {parameters ts : List Token}
    (ht : t.kind = .keyword .to) (hname : name.kind = .name)
    (hparameters : ∀ p ∈ parameters, p.kind = .colonName) (hbody : f.Passes ts)
    (hclosing : closing.kind = .keyword .end_) :
    f.Passes (t :: name :: (parameters ++ (ts ++ [closing]))) := by
  have hinner := ((Passes.all hparameters (by decide)).append hbody).behind hname (by decide)
  have hwhole := hinner.enclose f.pairs_procedure ht hclosing (.nil f)
  rwa [List.cons_append, List.append_assoc] at hwhole

/-- The parameters and the body of a `define` stand in one pair of brackets. -/
theorem passes_define {t name opening closing opening' closing' : Token}
    {parameters ts us : List Token} (ht : t.kind = .keyword .define) (hname : name.kind = .word)
    (hopening : opening.kind = .leftBracket) (hopening' : opening'.kind = .leftBracket)
    (hparameters : ∀ p ∈ parameters, p.kind = .name) (hclosing' : closing'.kind = .rightBracket)
    (hbody : f.Passes ts) (hclosing : closing.kind = .rightBracket) (hfinal : f.Passes us) :
    f.Passes (t :: name :: opening :: opening' ::
      (parameters ++ closing' :: (ts ++ closing :: us))) := by
  have hinner := (Passes.all hparameters (by decide)).enclose f.pairs_brackets hopening' hclosing'
    hbody
  have hwhole := ((hinner.enclose f.pairs_brackets hopening hclosing hfinal).behind hname
    (by decide)).behind ht (by decide)
  rwa [List.cons_append, List.append_assoc, List.cons_append] at hwhole

/-- The `end` behind a `define` is not counted, unless it is a stray one. -/
theorem passes_final {final : Option Token} (hfinal : ∀ e ∈ final, e.kind = .keyword .end_)
    (h : f.isStrict = true ∨ final.any (f.counts ·.kind) = false) : f.Passes final.toList := by
  cases final with
  | none => exact .nil f
  | some closing =>
    have hclosing := hfinal closing rfl
    refine (Passes.nil f).cons (hclosing ▸ ignores_quoted (by decide) (h.imp_right fun h => ?_))
    rwa [Option.any_some, hclosing] at h

theorem passes_loop {form : LoopForm} {t opening counter closing : Token} {ts us : List Token}
    (ht : t.kind = .keyword form.keyword) (hopening : opening.kind = .leftBracket)
    (hcounter : counter.kind = .name) (hbounds : f.Passes ts)
    (hclosing : closing.kind = .rightBracket) (hbody : f.Passes us) :
    f.Passes (t :: opening :: counter :: (ts ++ closing :: us)) := by
  have hhead := hbounds.behind hcounter (by decide)
  have hwhole := hhead.enclose f.pairs_brackets hopening hclosing hbody
  exact hwhole.behind ht (by cases form <;> decide)

mutual
/-- Statements are passed over if they quote nothing that is counted and no `end` that is counted
stands behind a `define` in them. -/
theorem Sentence.passes {s : Statement} {ts : List Token} :
    Sentence s ts → f.isStrict = true ∨ s.strays f = false → f.Passes ts
  | .command ht hslots harguments, h =>
    (harguments.passes h).behind ht (notMem_kinds_of_command hslots)
  | .setPosition ht htarget hvalue, h =>
    ((hvalue.passes h).behind htarget (by decide)).behind ht (by decide)
  | .to ht hname hparameters hbody hclosing, h =>
    passes_to ht hname hparameters (Each.sentences_passes hbody h) hclosing
  | .define ht hname hopening hopening' hparameters hclosing' hbody hclosing hfinal, h =>
    passes_define ht hname hopening hopening' hparameters hclosing' (hbody.passes (spares_or h).1)
      hclosing (passes_final hfinal (spares_or h).2)
  | .binding hform ht hname hvalue, h =>
    ((hvalue.passes h).behind hname (by decide)).behind ht (notMem_kinds_binding _)
  | .name ht hvalue hname, h =>
    ((hvalue.passes h).append ((Passes.nil f).behind hname (by decide))).behind ht (by decide)
  | .loop ht hopening hcounter _ _ hbounds hclosing hbody, h =>
    passes_loop ht hopening hcounter (hbounds.passes (spares_or h).1) hclosing
      (hbody.passes (spares_or h).2)
  | .call ht hinputs, h => (hinputs.passes h).behind ht (by decide)

theorem Each.sentences_passes {ss : List Statement} {ts : List Token} :
    Each Sentence ss ts → f.isStrict = true ∨ Statement.anyStrays f ss = false → f.Passes ts
  | .nil, _ => .nil f
  | .cons head tail, h =>
    (head.passes (spares_or h).1).append (Each.sentences_passes tail (spares_or h).2)

theorem Block.passes {body : List Statement} {ts : List Token} :
    Block body ts → f.isStrict = true ∨ Statement.anyStrays f body = false → f.Passes ts
  | .mk hopening hbody hclosing, h =>
    .enclose f.pairs_brackets hopening hclosing (Each.sentences_passes hbody h) (.nil f)

theorem Filling.passes {slots : List Slot} {arguments : List Argument} {ts : List Token} :
    Filling slots arguments ts → f.isStrict = true ∨ Argument.anyStrays f arguments = false →
      f.Passes ts
  | .nil, _ => .nil f
  | .expr hvalue hfilling, h =>
    (hvalue.passes (spares_or h).1).append (hfilling.passes (spares_or h).2)
  | .block hbody hfilling, h =>
    (hbody.passes (spares_or h).1).append (hfilling.passes (spares_or h).2)
end

end Grammar

end LogoServer
