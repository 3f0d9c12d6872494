import LogoServer.Proofs.Parser.Progress
import Mathlib.Tactic

/-! Counting finds the matching closer: the one behind a well-nested run of tokens, which is the
first behind as many openers as closers. What a bracket or a parenthesis opens is passed over
through that closer, and to the end of the text where it has none. -/
namespace LogoServer.Parser

/-! ### Closers and what they match -/

/-- Number of tokens of a kind. -/
def tally (kind : Kind) (ts : List Token) : Nat :=
  ts.countP (·.kind = kind)

/-- As many openers as closers are among the tokens. -/
def Balanced (opener closer : Kind) (ts : List Token) : Prop :=
  tally opener ts = tally closer ts

/-- The tokens have a closer with as many openers as closers before it. -/
structure Closes (opener closer : Kind) (tokens before : List Token) (closing : Token)
    (behind : List Token) : Prop where
  split : tokens = before ++ closing :: behind
  kind : closing.kind = closer
  balanced : Balanced opener closer before

/-- The first such closer. -/
structure Matches (opener closer : Kind) (tokens before : List Token) (closing : Token)
    (behind : List Token) : Prop extends Closes opener closer tokens before closing behind where
  first : ∀ us t vs, Closes opener closer tokens us t vs → before.length ≤ us.length

/-- There is no such closer. -/
def Unclosed (opener closer : Kind) (tokens : List Token) : Prop :=
  ∀ before closing behind, ¬ Closes opener closer tokens before closing behind

/-- Each opener among the tokens is closed among them, and each closer closes one of them. Other
kinds stand anywhere. -/
inductive WellNested (opener closer : Kind) : List Token → Prop
  | nil : WellNested opener closer []
  | other {t : Token} {ts : List Token} (hopener : t.kind ≠ opener) (hcloser : t.kind ≠ closer)
      (h : WellNested opener closer ts) : WellNested opener closer (t :: ts)
  | pair {opening closing : Token} {ts us : List Token} (hopening : opening.kind = opener)
      (hclosing : closing.kind = closer) (h : WellNested opener closer ts)
      (h' : WellNested opener closer us) : WellNested opener closer (opening :: (ts ++ closing :: us))

section Tally

variable {kind : Kind} {t : Token}

theorem tally_cons_of_eq (h : t.kind = kind) (ts : List Token) :
    tally kind (t :: ts) = tally kind ts + 1 :=
  List.countP_cons_of_pos (by simpa using h)

theorem tally_cons_of_ne (h : t.kind ≠ kind) (ts : List Token) :
    tally kind (t :: ts) = tally kind ts :=
  List.countP_cons_of_neg (by simpa using h)

theorem tally_append (kind : Kind) (ts us : List Token) :
    tally kind (ts ++ us) = tally kind ts + tally kind us :=
  List.countP_append

end Tally

section Counting

variable {opener closer : Kind} {t : Token} {ts us : List Token} {depth : Nat}

namespace WellNested

theorem balanced (hne : opener ≠ closer) (h : WellNested opener closer ts) :
    Balanced opener closer ts := by
  unfold Balanced
  induction h with
  | nil => rfl
  | other hopener hcloser _ ih => rwa [tally_cons_of_ne hopener, tally_cons_of_ne hcloser]
  | pair hopening hclosing _ _ ih ih' =>
    rw [tally_cons_of_eq hopening, tally_cons_of_ne (hopening ▸ hne), tally_append, tally_append,
      tally_cons_of_ne (hclosing ▸ hne.symm), tally_cons_of_eq hclosing, ih, ih', Nat.add_assoc]

/-- No closer comes before its opener. -/
theorem tally_take_le (hne : opener ≠ closer) (h : WellNested opener closer ts) (n : Nat) :
    tally closer (ts.take n) ≤ tally opener (ts.take n) := by
  induction h generalizing n with
  | nil => rw [List.take_nil]; rfl
  | other hopener hcloser _ ih =>
    cases n with
    | zero => exact le_rfl
    | succ n =>
      rw [List.take_succ_cons, tally_cons_of_ne hopener, tally_cons_of_ne hcloser]
      exact ih n
  | @pair opening closing ts us hopening hclosing h _ ih ih' =>
    cases n with
    | zero => exact le_rfl
    | succ n =>
      rw [List.take_succ_cons, tally_cons_of_eq hopening, tally_cons_of_ne (hopening ▸ hne),
        List.take_append, tally_append, tally_append]
      cases hm : n - ts.length with
      | zero => exact (ih n).trans (Nat.le_succ _)
      | succ m =>
        have hopener : closing.kind ≠ opener := hclosing ▸ hne.symm
        have hle := ih' m
        have heven : tally opener ts = tally closer ts := h.balanced hne
        rw [List.take_of_length_le (by omega), List.take_succ_cons, tally_cons_of_eq hclosing,
          tally_cons_of_ne hopener]
        omega

end WellNested

/-- Well-nested runs, divided by the closers of `depth` openers that stand before the tokens. -/
inductive Unwinds (opener closer : Kind) : (depth : Nat) → List Token → Prop
  | last {ts : List Token} (h : WellNested opener closer ts) : Unwinds opener closer 0 ts
  | close {depth : Nat} {ts us : List Token} {closing : Token} (h : WellNested opener closer ts)
      (hclosing : closing.kind = closer) (h' : Unwinds opener closer depth us) :
      Unwinds opener closer (depth + 1) (ts ++ closing :: us)

namespace Unwinds

theorem wellNested (h : Unwinds opener closer 0 ts) : WellNested opener closer ts := by
  cases h with
  | last h => exact h

theorem closer_cons (ht : t.kind = closer) (h : Unwinds opener closer depth ts) :
    Unwinds opener closer (depth + 1) (t :: ts) :=
  .close .nil ht h

theorem other_cons (hopener : t.kind ≠ opener) (hcloser : t.kind ≠ closer)
    (h : Unwinds opener closer depth ts) : Unwinds opener closer depth (t :: ts) := by
  cases h with
  | last h => exact .last (.other hopener hcloser h)
  | close h hclosing h' => exact .close (.other hopener hcloser h) hclosing h'

/-- What the opener opens is closed by the first of the closers. -/
theorem opener_cons (ht : t.kind = opener) (h : Unwinds opener closer (depth + 1) ts) :
    Unwinds opener closer depth (t :: ts) := by
  cases h with
  | close h hclosing h' =>
    cases h' with
    | last h' => exact .last (.pair ht hclosing h h')
    | close h' hclosing' h'' =>
      have hclosed := Unwinds.close (.pair ht hclosing h h') hclosing' h''
      rwa [List.cons_append, List.append_assoc] at hclosed

end Unwinds

/-! ### Where counting stops -/

/-- Where counting stops before the end, each of the openers before the tokens is closed. -/
theorem closerOffset_unwinds (opener closer : Kind) (depth : Nat) (tokens : List Token) :
    tokens.drop (closerOffset opener closer depth tokens) ≠ [] →
      Unwinds opener closer depth (tokens.take (closerOffset opener closer depth tokens)) := by
  fun_induction closerOffset opener closer depth tokens with
  | case1 => exact fun h => absurd rfl h
  | case2 => exact fun _ => .last .nil
  | case3 t tokens hcloser depth ih => exact fun h => (ih h).closer_cons hcloser
  | case4 depth t tokens hcloser hopener ih => exact fun h => (ih h).opener_cons hopener
  | case5 depth t tokens hcloser hopener ih => exact fun h => (ih h).other_cons hopener hcloser

/-- At each closer before the place where counting stops, something is left open. -/
theorem tally_lt_of_lt_closerOffset (hne : opener ≠ closer) {tokens vs : List Token}
    (htokens : tokens = us ++ t :: vs) (ht : t.kind = closer)
    (h : us.length < closerOffset opener closer depth tokens) :
    tally closer us < depth + tally opener us := by
  fun_induction closerOffset opener closer depth tokens generalizing us with
  | case1 | case2 => exact absurd h (Nat.not_lt_zero _)
  | case3 x tokens hcloser depth ih =>
    obtain ⟨rfl, -⟩ | ⟨us, rfl, hsplit⟩ := List.cons_eq_append_iff.mp htokens
    · exact Nat.succ_pos depth
    · have hlt := ih hsplit (Nat.lt_of_succ_lt_succ h)
      rw [tally_cons_of_eq hcloser, tally_cons_of_ne (hcloser ▸ hne.symm)]
      omega
  | case4 depth x tokens hcloser hopener ih =>
    obtain ⟨-, hx⟩ | ⟨us, rfl, hsplit⟩ := List.cons_eq_append_iff.mp htokens
    · exact absurd ((List.cons.inj hx).1 ▸ ht) hcloser
    · have hlt := ih hsplit (Nat.lt_of_succ_lt_succ h)
      rw [tally_cons_of_ne hcloser, tally_cons_of_eq hopener]
      omega
  | case5 depth x tokens hcloser hopener ih =>
    obtain ⟨-, hx⟩ | ⟨us, rfl, hsplit⟩ := List.cons_eq_append_iff.mp htokens
    · exact absurd ((List.cons.inj hx).1 ▸ ht) hcloser
    · rw [tally_cons_of_ne hcloser, tally_cons_of_ne hopener]
      exact ih hsplit (Nat.lt_of_succ_lt_succ h)

section First

variable {tokens before behind : List Token} {closing : Token}

theorem Closes.before_lt (h : Closes opener closer tokens before closing behind) :
    before.length < tokens.length := by
  rw [h.split, List.length_append, List.length_cons]
  omega

theorem Closes.closerOffset_le (hne : opener ≠ closer)
    (h : Closes opener closer tokens before closing behind) :
    closerOffset opener closer 0 tokens ≤ before.length := by
  by_contra hlt
  have htally := tally_lt_of_lt_closerOffset hne h.split h.kind (Nat.lt_of_not_le hlt)
  rw [Nat.zero_add, h.balanced] at htally
  exact Nat.lt_irrefl _ htally

theorem matches_closerOffset (hne : opener ≠ closer)
    (h : closerOffset opener closer 0 tokens < tokens.length) :
    Matches opener closer tokens (tokens.take (closerOffset opener closer 0 tokens))
      tokens[closerOffset opener closer 0 tokens]
      (tokens.drop (closerOffset opener closer 0 tokens + 1)) := by
  have hdrop := List.drop_eq_getElem_cons h
  have hunwinds := closerOffset_unwinds opener closer 0 tokens (hdrop ▸ List.cons_ne_nil _ _)
  refine ⟨⟨?_, ?_, hunwinds.wellNested.balanced hne⟩, fun us t vs hcloses => ?_⟩
  · rw [← hdrop, List.take_append_drop]
  · exact closerOffset_stops opener closer 0 tokens _ (by rw [hdrop]; rfl)
  · exact (List.length_take_le _ _).trans (hcloses.closerOffset_le hne)

theorem matches_or_unclosed (hne : opener ≠ closer) (tokens : List Token) :
    (∃ before closing behind, Matches opener closer tokens before closing behind) ∨
      Unclosed opener closer tokens := by
  by_cases h : closerOffset opener closer 0 tokens < tokens.length
  · exact .inl ⟨_, _, _, matches_closerOffset hne h⟩
  · exact .inr fun _ _ _ hcloses => h ((hcloses.closerOffset_le hne).trans_lt hcloses.before_lt)

theorem Matches.closerOffset_eq (hne : opener ≠ closer)
    (h : Matches opener closer tokens before closing behind) :
    closerOffset opener closer 0 tokens = before.length := by
  have hle := h.closerOffset_le hne
  have hfirst := h.first _ _ _ (matches_closerOffset hne (hle.trans_lt h.before_lt)).toCloses
  exact le_antisymm hle (hfirst.trans (List.length_take_le _ _))

theorem Unclosed.length_le (hne : opener ≠ closer) (h : Unclosed opener closer tokens) :
    tokens.length ≤ closerOffset opener closer 0 tokens := by
  by_contra hlt
  exact h _ _ _ (matches_closerOffset hne (Nat.lt_of_not_le hlt)).toCloses

theorem Matches.wellNested (hne : opener ≠ closer)
    (h : Matches opener closer tokens before closing behind) :
    WellNested opener closer before := by
  have hunwinds := closerOffset_unwinds opener closer 0 tokens
  rw [h.closerOffset_eq hne, h.split, List.drop_left, List.take_left] at hunwinds
  exact (hunwinds (List.cons_ne_nil _ _)).wellNested

theorem WellNested.matches (hne : opener ≠ closer) (h : WellNested opener closer before)
    (hclosing : closing.kind = closer) (behind : List Token) :
    Matches opener closer (before ++ closing :: behind) before closing behind := by
  refine ⟨⟨rfl, hclosing, h.balanced hne⟩, fun us t vs hcloses => ?_⟩
  by_contra hlt
  -- A closer further ahead would be one too many among the tokens up to it.
  have htake : before.take (us.length + 1) = us ++ [t] := by
    have hsplit := congrArg (List.take (us.length + 1)) hcloses.split
    rwa [List.take_append_of_le_length (Nat.lt_of_not_le hlt), List.take_length_add_append]
      at hsplit
  have hle := h.tally_take_le hne (us.length + 1)
  rw [htake, tally_append, tally_append, tally_cons_of_eq hcloses.kind,
    tally_cons_of_ne (hcloses.kind ▸ hne.symm), hcloses.balanced] at hle
  exact Nat.not_succ_le_self _ hle

theorem matches_iff (hne : opener ≠ closer) :
    Matches opener closer tokens before closing behind ↔
      tokens = before ++ closing :: behind ∧ closing.kind = closer ∧
        WellNested opener closer before := by
  constructor
  · exact fun h => ⟨h.split, h.kind, h.wellNested hne⟩
  · rintro ⟨rfl, hclosing, h⟩
    exact h.matches hne hclosing behind

end First

end Counting

/-! ### Passing over -/

section Passing

variable {opener closer : Kind} {s : State} {before behind : List Token} {closing : Token}

theorem outcome_skipToCloser_of_matches (hne : opener ≠ closer)
    (h : Matches opener closer s.rest before closing behind) :
    outcome (skipToCloser opener closer) s = ((), s.afterSkippingAll before (closing :: behind)) :=
  outcome_skipToCloser_of_offset h.split (h.closerOffset_eq hne)

theorem outcome_skipToCloser_of_unclosed (hne : opener ≠ closer)
    (h : Unclosed opener closer s.rest) :
    outcome (skipToCloser opener closer) s = ((), s.afterSkippingAll s.rest []) := by
  have hle := h.length_le hne
  rw [outcome_skipToCloser, outcome_skip, List.take_of_length_le hle, List.drop_eq_nil_of_le hle]

section Construct

variable {opening : Token} {tokens : List Token}

theorem ne_of_closer? (h : opener.closer? = some closer) : opener ≠ closer := by
  rintro rfl
  cases opener <;> cases h

theorem ne_eof_of_closer? (h : opener.closer? = some closer) : closer ≠ .eof := by
  rintro rfl
  cases opener <;> cases h

theorem outcome_skipConstruct_of_matches (hrest : s.rest = opening :: tokens)
    (hcloser : opening.kind.closer? = some closer)
    (h : Matches opening.kind closer tokens before closing behind) :
    outcome skipConstruct s =
      ((), s.afterSkippingAll (opening :: (before ++ [closing])) behind) := by
  have hoffset := h.closerOffset_eq (ne_of_closer? hcloser)
  rw [h.split] at hrest hoffset
  exact outcome_skipConstruct_of_offset hrest hcloser h.kind hoffset

theorem outcome_skipConstruct_of_unclosed (hs : s.eof.kind = .eof)
    (hrest : s.rest = opening :: tokens) (hcloser : opening.kind.closer? = some closer)
    (h : Unclosed opening.kind closer tokens) :
    outcome skipConstruct s = ((), s.afterSkippingAll s.rest []) := by
  let opened := s.afterSkippingAll [opening] tokens
  have hpassed : outcome (skipToCloser opening.kind closer) opened =
      ((), s.afterSkippingAll s.rest []) := by
    rw [outcome_skipToCloser_of_unclosed (ne_of_closer? hcloser) h, State.afterSkippingAll_append,
      hrest]
    rfl
  have hend : s.eof.kind ≠ closer := hs ▸ (ne_eof_of_closer? hcloser).symm
  rw [outcome_skipConstruct_opening hrest hcloser, hpassed]
  exact if_neg hend

end Construct

end Passing

/-- Passing over tokens up to a closer stops at the first closer behind as many openers as closers,
and at the mark of the end if there is none. That closer is the matching one: what stands before it
is well nested. So what a bracket or a parenthesis opens is passed over through its matching closer,
neither less nor more, and to the end if it is not closed. -/
theorem skips_to_matching_closer :
    (∀ (opener closer : Kind) (s : State), opener ≠ closer → s.Terminated →
      (∃ before closing behind, Matches opener closer s.rest before closing behind ∧
        outcome (skipToCloser opener closer) s =
          ((), s.afterSkippingAll before (closing :: behind))) ∨
      Unclosed opener closer s.rest ∧
        outcome (skipToCloser opener closer) s = ((), s.afterSkippingAll s.rest []) ∧
        (outcome (skipToCloser opener closer) s).2.current.kind = .eof) ∧
    (∀ (opener closer : Kind) (tokens before : List Token) (closing : Token) (behind : List Token),
      opener ≠ closer →
      (Matches opener closer tokens before closing behind ↔
        tokens = before ++ closing :: behind ∧ closing.kind = closer ∧
          WellNested opener closer before)) ∧
    ∀ (closer : Kind) (s : State) (opening : Token) (tokens : List Token), s.Terminated →
      s.rest = opening :: tokens → opening.kind.closer? = some closer →
      (∀ before closing behind, Matches opening.kind closer tokens before closing behind →
        outcome skipConstruct s =
          ((), s.afterSkippingAll (opening :: (before ++ [closing])) behind)) ∧
      (Unclosed opening.kind closer tokens →
        outcome skipConstruct s = ((), s.afterSkippingAll s.rest [])) := by
  refine ⟨fun opener closer s hne hs => ?_, fun _ _ _ _ _ _ => matches_iff,
    fun closer s opening tokens hs hrest hcloser => ⟨fun _ _ _ => ?_, ?_⟩⟩
  · obtain ⟨before, closing, behind, h⟩ | h := matches_or_unclosed hne s.rest
    · exact .inl ⟨before, closing, behind, h, outcome_skipToCloser_of_matches hne h⟩
    · have hpassed := outcome_skipToCloser_of_unclosed hne h
      exact .inr ⟨h, hpassed, hpassed ▸ hs.eof_kind⟩
  · exact outcome_skipConstruct_of_matches hrest hcloser
  · exact outcome_skipConstruct_of_unclosed hs.eof_kind hrest hcloser

/-- In `[[1](]2` the first bracket is closed by the last one. The parenthesis is not counted with
the brackets, and nothing closes it. -/
theorem skips_to_matching_closer_of_nested_list :
    let opening (column : Nat) : Token := ⟨⟨.leftBracket, "["⟩, ⟨1, column⟩⟩
    let closing (column : Nat) : Token := ⟨⟨.rightBracket, "]"⟩, ⟨1, column⟩⟩
    let one : Token := ⟨⟨.number, "1"⟩, ⟨1, 2⟩⟩
    let paren : Token := ⟨⟨.leftParen, "("⟩, ⟨1, 4⟩⟩
    let two : Token := ⟨⟨.number, "2"⟩, ⟨1, 6⟩⟩
    let inside : List Token := opening 1 :: ([one] ++ closing 3 :: [paren])
    let s : State := .start 1 (opening 0 :: (inside ++ closing 5 :: [two])) (.endOfText ⟨1, 7⟩)
    outcome skipConstruct s =
        ((), s.afterSkippingAll (opening 0 :: (inside ++ [closing 5])) [two]) ∧
      (outcome (skipToCloser .leftParen .rightParen) s).2.current.kind = .eof := by
  intro opening closing one paren two inside s
  obtain ⟨hstops, hmatches, hconstruct⟩ := skips_to_matching_closer
  have hs : s.Terminated := ⟨rfl, by decide⟩
  have hone : WellNested .leftBracket .rightBracket [one] := .other nofun nofun .nil
  have hparen : WellNested .leftBracket .rightBracket [paren] := .other nofun nofun .nil
  have hinside : WellNested .leftBracket .rightBracket inside := .pair rfl rfl hone hparen
  have hclosing := (hmatches .leftBracket .rightBracket (inside ++ closing 5 :: [two]) inside
    (closing 5) [two] nofun).mpr ⟨rfl, rfl, hinside⟩
  refine ⟨(hconstruct _ s (opening 0) _ hs rfl rfl).1 _ _ _ hclosing, ?_⟩
  obtain ⟨before, found, behind, h, -⟩ | ⟨-, -, hend⟩ :=
    hstops .leftParen .rightParen s nofun hs
  · have hnone : ∀ t ∈ s.rest, t.kind ≠ .rightParen := by decide
    exact absurd h.kind (hnone found (h.split ▸ List.mem_append_right _ List.mem_cons_self))
  · exact hend

end LogoServer.Parser
