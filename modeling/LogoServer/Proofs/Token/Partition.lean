import LogoServer.Proofs.Text.Order
import LogoServer.Proofs.Token.Opening
import LogoServer.Token.Scan
import Mathlib.Data.List.TakeWhile
import Mathlib.Tactic

/-! A text falls into segments one behind the other. Its tokens therefore stand in reading order,
apart from each other and inside the text, and the kind of a token tells how its text starts. -/
namespace LogoServer

/-- What the text of a lexeme looks like: it is there, holds no white space, and starts as its kind
says. -/
structure Lexeme.WellFormed (l : Lexeme) : Prop where
  nonempty : l.text.toList ≠ []
  unbroken : ∀ c ∈ l.text.toList, Text.isWhiteSpace c = false
  kind_ne_eof : l.kind ≠ .eof
  colon : l.kind = .colonName → ∃ name, l.text.toList = ':' :: name
  quote : l.kind = .word → ∃ name, l.text.toList = '"' :: name
  bare : l.kind = .name → ∃ c rest, l.text.toList = c :: rest ∧ Segment.startsName c = true

/-- A lexeme whose kind says nothing about the first character. -/
theorem Lexeme.wellFormed_of_plain {kind : Kind} {text : List Char}
    (hkind : kind ∉ [.eof, .colonName, .word, .name]) (hne : text ≠ [])
    (hw : ∀ c ∈ text, Text.isWhiteSpace c = false) :
    Lexeme.WellFormed ⟨kind, String.ofList text⟩ := by
  simp only [List.mem_cons, List.not_mem_nil, or_false, not_or] at hkind
  obtain ⟨heof, hcolon, hword, hname⟩ := hkind
  exact {
    nonempty := by simpa using hne
    unbroken := by simpa using hw
    kind_ne_eof := heof
    colon := fun h => absurd h hcolon
    quote := fun h => absurd h hword
    bare := fun h => absurd h hname }

theorem Lexeme.wellFormed_of_marks {kind : Kind} {c : Char} {more : List Char}
    (h : kind.marks? = some (c :: more)) :
    Lexeme.WellFormed ⟨kind, String.ofList (c :: more)⟩ :=
  wellFormed_of_plain (Kind.plain_of_marks h) (List.cons_ne_nil _ _) (Kind.isWhiteSpace_of_marks h)

namespace Segment

theorem cutNumber_lexeme_wellFormed {sign text : List Char} {l : Lexeme}
    (hsign : ∀ c ∈ sign, Text.isWhiteSpace c = false)
    (hne : sign ++ text.takeWhile Char.isDigit ≠ [])
    (h : (cutNumber sign text).1 = .lexeme l) : l.WellFormed := by
  have hdigits : ∀ s : List Char, ∀ c ∈ s.takeWhile Char.isDigit, Text.isWhiteSpace c = false :=
    fun s c hc => Text.isWhiteSpace_of_isDigit (List.mem_takeWhile_imp hc)
  have hpoint : Text.isWhiteSpace '.' = false := by decide
  simp only [cutNumber, cutWhile, cutLexeme] at h
  split at h
  · split_ifs at h
    · cases h
      refine Lexeme.wellFormed_of_plain (by decide) (by simp) ?_
      grind
    · cases h
      refine Lexeme.wellFormed_of_plain (by decide) hne ?_
      grind
  · cases h
    refine Lexeme.wellFormed_of_plain (by decide) hne ?_
    grind

theorem cutName_lexeme_wellFormed {c : Char} {rest : List Char} {l : Lexeme}
    (hc : startsName c = true) (h : (cutName (c :: rest)).1 = .lexeme l) : l.WellFormed := by
  have hcontinues := continuesName_of_startsName hc
  simp only [cutName, cutLexeme, List.takeWhile_cons_of_pos hcontinues] at h
  cases h
  refine ⟨by simp, ?_, ?_, ?_, ?_, ?_⟩
  · intro d hd
    simp only [String.toList_ofList, List.mem_cons] at hd
    rcases hd with rfl | hd
    · exact isWhiteSpace_of_continuesName hcontinues
    · exact isWhiteSpace_of_continuesName (List.mem_takeWhile_imp hd)
  all_goals
    generalize Keyword.lookup _ = found
    cases found <;> simp [hc]

theorem cutWhile_lexeme_wellFormed {kind : Kind} {first : Char} {test : Char → Bool}
    {text : List Char} {l : Lexeme} (hkind : (kind = .colonName ∧ first = ':') ∨
      (kind = .word ∧ first = '"')) (hfirst : Text.isWhiteSpace first = false)
    (htest : ∀ c, test c = true → Text.isWhiteSpace c = false)
    (h : (cutWhile kind [first] test text).1 = .lexeme l) : l.WellFormed := by
  simp only [cutWhile, cutLexeme] at h
  cases h
  refine ⟨by simp, ?_, ?_, ?_, ?_, ?_⟩
  · intro d hd
    simp only [List.singleton_append, String.toList_ofList, List.mem_cons] at hd
    rcases hd with rfl | hd
    · exact hfirst
    · exact htest d (List.mem_takeWhile_imp hd)
  all_goals rcases hkind with ⟨rfl, rfl⟩ | ⟨rfl, rfl⟩ <;> simp

/-- Every lexeme that is cut off a text looks as its kind says. -/
theorem cut_lexeme_wellFormed {previous : Option Kind} {c : Char} {rest : List Char} {l : Lexeme}
    (h : (cut previous c rest).1 = .lexeme l) : l.WellFormed := by
  cases opening c rest with
  | blank hblank =>
    rw [cut_of_isWhiteSpace previous hblank] at h
    cases h
  | comment =>
    rw [cut_semicolon] at h
    cases h
  | marks kind hmarks hminus hend =>
    rw [cut_marks previous hmarks hminus hend] at h
    cases h
    exact Lexeme.wellFormed_of_marks hmarks
  | minus =>
    rw [cut_minus] at h
    split_ifs at h
    · have hminus : Kind.minus.marks? = some ['-'] := rfl
      exact cutNumber_lexeme_wellFormed (Kind.isWhiteSpace_of_marks hminus) (by simp) h
    · cases h
      exact Lexeme.wellFormed_of_marks rfl
  | quote =>
    rw [cut_quote] at h
    exact cutWhile_lexeme_wellFormed (.inr ⟨rfl, rfl⟩) (by decide)
      (fun _ => isWhiteSpace_of_continuesWord) h
  | colon =>
    rw [cut_colon] at h
    split_ifs at h
    exact cutWhile_lexeme_wellFormed (.inl ⟨rfl, rfl⟩) (by decide)
      (fun _ => isWhiteSpace_of_continuesName) h
  | unmarked hc =>
    rw [cut_unmarked previous hc] at h
    split_ifs at h with hdigit hname
    · exact cutNumber_lexeme_wellFormed (by simp) (by simp [hdigit]) h
    · exact cutName_lexeme_wellFormed hname h

theorem cutNumber_eq_lexeme (sign text : List Char) : ∃ l, (cutNumber sign text).1 = .lexeme l := by
  simp only [cutNumber, cutWhile, cutLexeme]
  split
  · split <;> exact ⟨_, rfl⟩
  · exact ⟨_, rfl⟩

/-- A comment runs from its semicolon up to the end of the line. -/
theorem cut_comment {previous : Option Kind} {c : Char} {rest text : List Char}
    (h : (cut previous c rest).1 = .comment text) : text = c :: rest.takeWhile (· != '\n') := by
  have hnumber : ∀ sign s, (cutNumber sign s).1 ≠ .comment text := by
    intro sign s hs
    obtain ⟨l, hl⟩ := cutNumber_eq_lexeme sign s
    rw [hl] at hs
    cases hs
  cases opening c rest with
  | blank hblank =>
    rw [cut_of_isWhiteSpace previous hblank] at h
    cases h
  | comment =>
    rw [cut_semicolon] at h
    cases h
    rfl
  | marks kind hmarks hminus hend =>
    rw [cut_marks previous hmarks hminus hend] at h
    cases h
  | minus =>
    rw [cut_minus] at h
    split_ifs at h
    · exact absurd h (hnumber _ _)
    · cases h
  | quote =>
    rw [cut_quote] at h
    cases h
  | colon =>
    rw [cut_colon] at h
    split_ifs at h
    cases h
  | unmarked hc =>
    rw [cut_unmarked previous hc] at h
    split_ifs at h
    · exact absurd h (hnumber _ _)
    · cases h

theorem cut_chars_ne_nil (previous : Option Kind) (c : Char) (rest : List Char) :
    (cut previous c rest).1.chars ≠ [] := by
  cases hs : (cut previous c rest).1 with
  | blank c => simp
  | stray c => simp
  | lexeme l => exact (cut_lexeme_wellFormed hs).nonempty
  | comment text =>
    rw [cut_comment hs]
    simp

theorem cut_rest_length_lt (previous : Option Kind) (c : Char) (rest : List Char) :
    (cut previous c rest).2.length < rest.length + 1 := by
  have happend := congrArg List.length (cut_append previous c rest)
  have hpos := List.length_pos_iff.mpr (cut_chars_ne_nil previous c rest)
  rw [List.length_append, List.length_cons] at happend
  omega

end Segment

/-- The segments of a text that starts at a place, behind a lexeme of kind `previous`. -/
inductive Partition : Position → Option Kind → List Char → List Placed → Prop
  | nil {p : Position} {previous : Option Kind} : Partition p previous [] []
  | cons {p : Position} {previous : Option Kind} {c : Char} {rest rest' : List Char}
      {segment : Segment} {placed : List Placed}
      (hcut : Segment.cut previous c rest = (segment, rest'))
      (h : Partition (p.advanceOver segment.chars) (segment.kind?.or previous) rest' placed) :
      Partition p previous (c :: rest) (⟨p, segment⟩ :: placed)

/-- With enough fuel the whole text is cut. -/
theorem placeSegments_partition {fuel : Nat} (p : Position) (previous : Option Kind)
    (text : List Char) (found : List Placed) (hfuel : text.length ≤ fuel) :
    ∃ placed, Partition p previous text placed ∧
      placeSegments fuel p previous text found = placed.reverse ++ found := by
  induction fuel generalizing p previous text found with
  | zero =>
    obtain rfl : text = [] := List.length_eq_zero_iff.mp (by omega)
    exact ⟨[], .nil, rfl⟩
  | succ fuel ih =>
    cases text with
    | nil => exact ⟨[], .nil, rfl⟩
    | cons c rest =>
      have hlt := Segment.cut_rest_length_lt previous c rest
      rw [List.length_cons] at hfuel
      rcases hcut : Segment.cut previous c rest with ⟨segment, rest'⟩
      simp only [hcut] at hlt
      obtain ⟨placed, hplaced, heq⟩ := ih (p.advanceOver segment.chars)
        (segment.kind?.or previous) rest' (⟨p, segment⟩ :: found) (by omega)
      refine ⟨_, .cons hcut hplaced, ?_⟩
      simp only [placeSegments, hcut, heq]
      simp

theorem segments_partition (text : List Char) : Partition .first none text (segments text) := by
  obtain ⟨placed, hplaced, heq⟩ := placeSegments_partition .first none text [] le_rfl
  rw [segments, heq]
  simpa using hplaced

namespace Partition

variable {p : Position} {previous : Option Kind} {text : List Char} {placed : List Placed}

/-- Each segment stands in the text at its place. -/
theorem exists_split (h : Partition p previous text placed) {x : Placed} (hx : x ∈ placed) :
    ∃ before behind, text = before ++ x.segment.chars ++ behind ∧
      x.position = p.advanceOver before := by
  induction h with
  | nil => simp at hx
  | @cons p previous c rest rest' segment placed hcut _ ih =>
    have happend := Segment.cut_append previous c rest
    rw [hcut] at happend
    rcases List.mem_cons.mp hx with rfl | hx
    · exact ⟨[], rest', by simpa using happend.symm, rfl⟩
    · obtain ⟨before, behind, htext, hposition⟩ := ih hx
      refine ⟨segment.chars ++ before, behind, ?_, ?_⟩
      · rw [← happend, htext]
        simp
      · rw [hposition, Position.advanceOver_append]

/-- Each segment starts behind the ones before it. -/
theorem pairwise_notAfter (h : Partition p previous text placed) :
    placed.Pairwise fun x y => (x.position.advanceOver x.segment.chars).notAfter y.position := by
  induction h with
  | nil => exact .nil
  | cons _ hrest ih =>
    refine List.pairwise_cons.mpr ⟨fun y hy => ?_, ih⟩
    obtain ⟨before, _, _, hposition⟩ := hrest.exists_split hy
    rw [hposition]
    exact Position.notAfter_advanceOver _ _

theorem segment_ne_nil (h : Partition p previous text placed) {x : Placed} (hx : x ∈ placed) :
    x.segment.chars ≠ [] := by
  induction h with
  | nil => simp at hx
  | @cons p previous c rest rest' segment placed hcut _ ih =>
    rcases List.mem_cons.mp hx with rfl | hx
    · have hchars := Segment.cut_chars_ne_nil previous c rest
      rwa [hcut] at hchars
    · exact ih hx

/-- No segment is empty, so no two start at the same place. -/
theorem pairwise_before (h : Partition p previous text placed) :
    placed.Pairwise fun x y => x.position.Before y.position := by
  refine h.pairwise_notAfter.imp_of_mem ?_
  intro x y hx _ hxy
  exact (Position.before_advanceOver _ (h.segment_ne_nil hx)).trans_notAfter hxy

theorem before_finish (h : Partition p previous text placed) {x : Placed} (hx : x ∈ placed) :
    x.position.Before (p.advanceOver text) := by
  obtain ⟨before, behind, rfl, hposition⟩ := h.exists_split hx
  rw [Position.advanceOver_append, Position.advanceOver_append, ← hposition]
  exact (Position.before_advanceOver _ (h.segment_ne_nil hx)).trans_notAfter
    (Position.notAfter_advanceOver _ _)

theorem lexeme_wellFormed (h : Partition p previous text placed) {x : Placed} (hx : x ∈ placed)
    {l : Lexeme} (hl : x.segment = .lexeme l) : l.WellFormed := by
  induction h with
  | nil => simp at hx
  | cons hcut _ ih =>
    rcases List.mem_cons.mp hx with rfl | hx
    · exact Segment.cut_lexeme_wellFormed (by rw [hcut]; exact hl)
    · exact ih hx

end Partition

namespace Token

def finish (t : Token) : Position :=
  ⟨t.position.line, t.position.column + t.length⟩

/-- The token ends before another starts, or where it starts. -/
def Precedes (a b : Token) : Prop :=
  a.finish.notAfter b.position = true

theorem finish_eq_advanceOver {t : Token} (h : t.toLexeme.WellFormed) :
    t.finish = t.position.advanceOver t.text.toList := by
  have hunbroken : '\n' ∉ t.text.toList := by
    intro hmem
    exact absurd (h.unbroken _ hmem) (by decide)
  rw [Position.advanceOver_of_unbroken _ hunbroken, finish, Lexeme.length, String.length_toList]

theorem Precedes.before {a b : Token} (ha : a.toLexeme.WellFormed) (h : a.Precedes b) :
    a.position.Before b.position := by
  have hpos : 0 < a.length := by
    rw [Lexeme.length, ← String.length_toList]
    exact List.length_pos_iff.mpr ha.nonempty
  rw [Precedes, Position.notAfter_iff] at h
  simp only [finish] at h
  unfold Position.Before
  omega

/-- Things whose tokens come one behind the other are told apart by the places of these. -/
theorem eq_of_position_eq {α : Type} {token : α → Token} {as : List α} {a b : α}
    (hwell : ∀ a ∈ as, (token a).toLexeme.WellFormed)
    (hprecedes : as.Pairwise fun a b => (token a).Precedes (token b)) (ha : a ∈ as) (hb : b ∈ as)
    (h : (token a).position = (token b).position) : a = b := by
  rcases eq_or_of_pairwise hprecedes ha hb with rfl | hab | hba
  · rfl
  · have hbefore := hab.before (hwell a ha)
    rw [h, Position.Before] at hbefore
    omega
  · have hbefore := hba.before (hwell b hb)
    rw [h, Position.Before] at hbefore
    omega

end Token

namespace Scan

variable {text : List Char}

theorem mem_tokens_iff {t : Token} :
    t ∈ (ofText text).tokens ↔ ⟨t.position, .lexeme t.toLexeme⟩ ∈ segments text := by
  simp only [ofText, List.mem_filterMap]
  constructor
  · rintro ⟨⟨position, segment⟩, hmem, heq⟩
    cases segment <;> simp [Placed.token?] at heq
    subst heq
    exact hmem
  · intro hmem
    exact ⟨_, hmem, rfl⟩

theorem tokens_wellFormed {t : Token} (h : t ∈ (ofText text).tokens) : t.toLexeme.WellFormed :=
  (segments_partition text).lexeme_wellFormed (mem_tokens_iff.mp h) rfl

/-- Tokens come in reading order and none reaches into the next. -/
theorem tokens_pairwise_precedes (text : List Char) :
    (ofText text).tokens.Pairwise Token.Precedes := by
  have hsegments := List.Pairwise.and_mem.mp (segments_partition text).pairwise_notAfter
  refine hsegments.filterMap _ ?_
  rintro ⟨p, x⟩ ⟨q, y⟩ ⟨hx, -, hxy⟩ a ha b hb
  cases x <;> simp only [Placed.token?, Option.some.injEq, reduceCtorEq] at ha
  cases y <;> simp only [Placed.token?, Option.some.injEq, reduceCtorEq] at hb
  subst ha hb
  rw [Token.Precedes, Token.finish_eq_advanceOver (tokens_wellFormed (mem_tokens_iff.mpr hx))]
  exact hxy

/-- Tokens come in reading order, the mark of the end behind them. -/
theorem stream_pairwise_before (text : List Char) :
    ((ofText text).tokens ++ [(ofText text).eof]).Pairwise
      fun a b => a.position.Before b.position := by
  refine List.pairwise_append.mpr ⟨?_, List.pairwise_singleton _ _, ?_⟩
  · refine (tokens_pairwise_precedes text).imp_of_mem ?_
    intro a b ha _ hab
    exact hab.before (tokens_wellFormed ha)
  · intro t ht b hb
    rw [List.mem_singleton.mp hb]
    exact (segments_partition text).before_finish (mem_tokens_iff.mp ht)

theorem mem_errors_iff {e : SyntaxError} :
    e ∈ (ofText text).errors ↔
      ∃ c, ⟨e.position, .stray c⟩ ∈ segments text ∧ e = ⟨.unrecognized c, e.position, 0⟩ := by
  simp only [ofText, List.mem_filterMap]
  constructor
  · rintro ⟨⟨position, segment⟩, hmem, heq⟩
    cases segment <;> simp [Placed.error?] at heq
    subst heq
    exact ⟨_, hmem, rfl⟩
  · rintro ⟨c, hmem, heq⟩
    exact ⟨_, hmem, congrArg some heq.symm⟩

theorem errors_pairwise_before (text : List Char) :
    (ofText text).errors.Pairwise fun a b => a.position.Before b.position := by
  refine (segments_partition text).pairwise_before.filterMap _ ?_
  rintro ⟨p, x⟩ ⟨q, y⟩ hxy a ha b hb
  cases x <;> simp only [Placed.error?, Option.some.injEq, reduceCtorEq] at ha
  cases y <;> simp only [Placed.error?, Option.some.injEq, reduceCtorEq] at hb
  subst ha hb
  exact hxy

/-- A stray character stands where no token does, nor at the end. -/
theorem position_ne_of_mem_errors {e : SyntaxError} (he : e ∈ (ofText text).errors) {t : Token}
    (ht : t ∈ (ofText text).tokens ++ [(ofText text).eof]) : e.position ≠ t.position := by
  obtain ⟨c, hc, _⟩ := mem_errors_iff.mp he
  have hpartition := segments_partition text
  intro heq
  rcases List.mem_append.mp ht with ht | ht
  · rcases eq_or_of_pairwise hpartition.pairwise_before hc (mem_tokens_iff.mp ht) with h | h | h
    · cases congrArg Placed.segment h
    · exact Position.not_before_self _ (heq ▸ h)
    · exact Position.not_before_self _ (heq ▸ h)
  · have hfinish := hpartition.before_finish hc
    rw [List.mem_singleton.mp ht] at heq
    exact Position.not_before_self _ (heq ▸ hfinish)

theorem tokens_within {t : Token} (h : t ∈ (ofText text).tokens) :
    1 ≤ t.position.line ∧ t.position.line ≤ text.length ∧
      t.position.column + t.length ≤ text.length := by
  obtain ⟨before, behind, htext, hposition⟩ :=
    (segments_partition text).exists_split (mem_tokens_iff.mp h)
  have hpos := List.length_pos_iff.mpr (tokens_wellFormed h).nonempty
  have hlength := congrArg List.length htext
  have hle := Position.advanceOver_le .first before
  have hfirst := Position.notAfter_advanceOver .first before
  simp only [List.length_append, Segment.chars_lexeme, String.length_toList] at hlength hpos
  rw [← hposition] at hle hfirst
  simp only [Position.notAfter_iff, Position.first] at hle hfirst
  rw [Lexeme.length]
  omega

end Scan

end LogoServer
