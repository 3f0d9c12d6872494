import LogoServer.Proofs.Token.Joined
import Mathlib.Tactic

/-! Tokens written out again with a blank between each two. Whatever ended a lexeme in its text,
white space ends it as well, and a minus looks back at the same lexeme as there: the text written
out falls into the same lexemes. -/
namespace LogoServer

namespace Segment

section Blank

variable {behind : List Char} (hblank : ∀ c ∈ behind.head?, Text.isWhiteSpace c = true)
include hblank

section Test

variable {test : Char → Bool} (htest : ∀ c, Text.isWhiteSpace c = true → test c = false)
include htest

theorem firstIs_blank : firstIs test behind = false := by
  cases behind with
  | nil => rfl
  | cons c behind => exact htest c (hblank c rfl)

/-- A test that white space fails stops where white space or the end stands. -/
theorem takeWhile_blank {text : List Char} (htext : ∀ c ∈ text, test c = true) :
    (text ++ behind).takeWhile test = text ∧ (text ++ behind).dropWhile test = behind := by
  rw [List.takeWhile_append_of_pos htext, List.dropWhile_append_of_pos htext]
  cases behind with
  | nil => simp
  | cons c behind =>
    have hc : ¬ test c = true := by simp [htest c (hblank c rfl)]
    rw [List.takeWhile_cons_of_neg hc, List.dropWhile_cons_of_neg hc, List.append_nil]
    exact ⟨rfl, rfl⟩

theorem cutWhile_blank (kind : Kind) (start : List Char) {text : List Char}
    (htext : ∀ c ∈ text, test c = true) :
    cutWhile kind start test (text ++ behind) = cutLexeme kind (start ++ text) behind := by
  obtain ⟨htake, hdrop⟩ := takeWhile_blank hblank htest htext
  rw [cutWhile, htake, hdrop]

end Test

theorem cutNumber_blank {sign whole fraction : List Char} (hwhole : ∀ d ∈ whole, d.isDigit = true)
    (hfraction : IsFraction fraction) :
    cutNumber sign (whole ++ (fraction ++ behind)) =
      cutLexeme .number (sign ++ (whole ++ fraction)) behind := by
  have htest : ∀ c, Text.isWhiteSpace c = true → c.isDigit = false :=
    fun _ => Text.isDigit_of_isWhiteSpace
  rcases hfraction with rfl | ⟨d, ds, rfl, hds⟩
  · obtain ⟨htake, hdrop⟩ := takeWhile_blank hblank htest hwhole
    unfold cutNumber
    rw [List.nil_append, htake, hdrop]
    split
    · exact absurd (hblank '.' rfl) (by decide)
    · rw [List.append_nil]
  · have htake : (whole ++ '.' :: (d :: ds ++ behind)).takeWhile Char.isDigit = whole := by
      rw [List.takeWhile_append_of_pos hwhole, List.takeWhile_cons_of_neg (by decide),
        List.append_nil]
    have hdrop : (whole ++ '.' :: (d :: ds ++ behind)).dropWhile Char.isDigit =
        '.' :: d :: (ds ++ behind) := by
      rw [List.dropWhile_append_of_pos hwhole, List.dropWhile_cons_of_neg (by decide)]
      rfl
    have hcut := cutWhile_blank hblank htest .number (sign ++ whole ++ ['.']) hds
    unfold cutNumber
    rw [List.cons_append, htake, hdrop]
    simp only [hds d List.mem_cons_self, if_true]
    rw [← List.cons_append, hcut]
    simp

/-- A number cut off a text is cut off again where white space or the end stands behind it. -/
theorem cutNumber_again {sign : List Char} {c : Char} {rest : List Char} {l : Lexeme}
    (hc : c.isDigit = true) (h : (cutNumber sign (c :: rest)).1 = .lexeme l) :
    ∃ tail, l.text.toList = sign ++ c :: tail ∧
      cutNumber sign (c :: (tail ++ behind)) = (.lexeme l, behind) := by
  have hdigit : firstIs Char.isDigit (c :: rest) = true := hc
  obtain ⟨whole, fraction, behind', hne, hwhole, hfraction, -, hcut⟩ :=
    exists_cutNumber_eq sign hdigit
  obtain ⟨d, whole, rfl⟩ := List.exists_cons_of_ne_nil hne
  have happend := cutNumber_append sign (c :: rest)
  rw [hcut, cutLexeme_append] at happend
  rw [hcut] at h
  cases h
  obtain rfl : d = c := by simpa using congrArg (fun s => s[sign.length]?) happend
  refine ⟨whole ++ fraction, by simp, ?_⟩
  rw [List.append_assoc]
  exact cutNumber_blank hblank hwhole hfraction

theorem cutName_blank {text : List Char} (htext : ∀ c ∈ text, continuesName c = true) :
    cutName (text ++ behind) =
      cutLexeme (((Keyword.lookup (String.ofList text)).map Kind.keyword).getD .name) text
        behind := by
  obtain ⟨htake, hdrop⟩ :=
    takeWhile_blank hblank (fun _ => continuesName_of_isWhiteSpace) htext
  rw [cutName, htake, hdrop]

/-! ### Lexemes, by what they open with -/

section Cut

variable {previous : Option Kind} {rest : List Char} {l : Lexeme}

/-- The sign still stands in front of the digit it stood in front of, and a minus alone in front of
none. -/
theorem cut_minus_blank (h : (cut previous '-' rest).1 = .lexeme l) :
    ∃ tail, l.text.toList = '-' :: tail ∧
      cut previous '-' (tail ++ behind) = (.lexeme l, behind) := by
  rw [cut_minus] at h
  split_ifs at h with hsign
  · obtain ⟨hvalue, hdigit⟩ := Bool.and_eq_true_iff.mp hsign
    cases rest with
    | nil => cases hdigit
    | cons d rest =>
      obtain ⟨tail, htail, hnumber⟩ := cutNumber_again hblank hdigit h
      have hfirst : firstIs Char.isDigit (d :: tail ++ behind) = true := hdigit
      refine ⟨d :: tail, htail, ?_⟩
      rw [cut_minus, hvalue, hfirst, Bool.and_self, if_pos rfl]
      exact hnumber
  · cases h
    refine ⟨[], String.toList_ofList, ?_⟩
    rw [cut_minus, List.nil_append, firstIs_blank hblank fun _ => Text.isDigit_of_isWhiteSpace,
      Bool.and_false, if_neg Bool.false_ne_true]
    rfl

theorem cut_quote_blank (h : (cut previous '"' rest).1 = .lexeme l) :
    ∃ tail, l.text.toList = '"' :: tail ∧
      cut previous '"' (tail ++ behind) = (.lexeme l, behind) := by
  rw [cut_quote] at h
  cases h
  refine ⟨rest.takeWhile continuesWord, String.toList_ofList, ?_⟩
  rw [cut_quote]
  exact cutWhile_blank hblank (fun _ => continuesWord_of_isWhiteSpace) .word ['"']
    fun _ => List.mem_takeWhile_imp

theorem cut_colon_blank (h : (cut previous ':' rest).1 = .lexeme l) :
    ∃ tail, l.text.toList = ':' :: tail ∧
      cut previous ':' (tail ++ behind) = (.lexeme l, behind) := by
  rw [cut_colon] at h
  split_ifs at h with hname
  cases h
  refine ⟨rest.takeWhile continuesName, String.toList_ofList, ?_⟩
  have hfirst : firstIs startsName (rest.takeWhile continuesName ++ behind) = true := by
    cases rest with
    | nil => cases hname
    | cons d rest =>
      rw [List.takeWhile_cons_of_pos (continuesName_of_startsName hname)]
      exact hname
  rw [cut_colon, if_pos hfirst]
  exact cutWhile_blank hblank (fun _ => continuesName_of_isWhiteSpace) .colonName [':']
    fun _ => List.mem_takeWhile_imp

/-- Numbers and names open with no mark. -/
theorem cut_unmarked_blank {c : Char} (hc : Unmarked c)
    (h : (cut previous c rest).1 = .lexeme l) :
    ∃ tail, l.text.toList = c :: tail ∧ cut previous c (tail ++ behind) = (.lexeme l, behind) := by
  rw [cut_unmarked previous hc] at h
  split_ifs at h with hdigit hname
  · obtain ⟨tail, htail, hnumber⟩ := cutNumber_again hblank hdigit h
    refine ⟨tail, htail, ?_⟩
    rw [cut_unmarked previous hc, if_pos hdigit]
    exact hnumber
  · have hcontinues := continuesName_of_startsName hname
    have htext : ∀ d ∈ c :: rest.takeWhile continuesName, continuesName d = true :=
      List.forall_mem_cons.mpr ⟨hcontinues, fun _ => List.mem_takeWhile_imp⟩
    rw [cutName, List.takeWhile_cons_of_pos hcontinues] at h
    cases h
    refine ⟨rest.takeWhile continuesName, String.toList_ofList, ?_⟩
    rw [cut_unmarked previous hc, if_neg hdigit, if_pos hname]
    exact cutName_blank hblank htext

/-- A lexeme is cut in the same way where white space or the end stands behind it. -/
theorem cut_blank {c : Char} (h : (cut previous c rest).1 = .lexeme l) :
    ∃ tail, l.text.toList = c :: tail ∧ cut previous c (tail ++ behind) = (.lexeme l, behind) := by
  cases opening c rest with
  | blank hc =>
    rw [cut_of_isWhiteSpace previous hc] at h
    cases h
  | comment =>
    rw [cut_semicolon] at h
    cases h
  | @marks c more rest kind hmarks hminus hend =>
    rw [cut_marks previous hmarks hminus hend] at h
    cases h
    refine ⟨more, String.toList_ofList, ?_⟩
    exact cut_marks previous hmarks hminus
      fun d hd => kind.goesOn_of_isWhiteSpace (hblank d hd)
  | minus => exact cut_minus_blank hblank h
  | quote => exact cut_quote_blank hblank h
  | colon => exact cut_colon_blank hblank h
  | unmarked hc => exact cut_unmarked_blank hblank hc h

end Cut

end Blank

end Segment

/-- The texts of lexemes with a single blank between each two. -/
def Lexeme.spaced (lexemes : List Lexeme) : String :=
  " ".intercalate (lexemes.map Lexeme.text)

theorem Lexeme.toList_spaced_singleton (l : Lexeme) : (spaced [l]).toList = l.text.toList := by
  simp [spaced]

theorem Lexeme.toList_spaced_cons_cons (l m : Lexeme) (lexemes : List Lexeme) :
    (spaced (l :: m :: lexemes)).toList =
      l.text.toList ++ ' ' :: (spaced (m :: lexemes)).toList := by
  simp [spaced]

namespace Partition

variable {p : Position} {previous : Option Kind} {text : List Char} {placed : List Placed}

/-- A lexeme in front of a text that is cut into parts, a blank between them if need be. -/
theorem exists_spaced_cons {c : Char} {rest : List Char} {l : Lexeme}
    (hl : (Segment.cut previous c rest).1 = .lexeme l) (p : Position) {lexemes : List Lexeme}
    (h : ∀ q, ∃ placed, Partition q (some l.kind) (Lexeme.spaced lexemes).toList placed ∧
      (placed.filterMap Placed.token?).map Token.toLexeme = lexemes ∧
      placed.filterMap Placed.error? = []) :
    ∃ placed, Partition p previous (Lexeme.spaced (l :: lexemes)).toList placed ∧
      (placed.filterMap Placed.token?).map Token.toLexeme = l :: lexemes ∧
      placed.filterMap Placed.error? = [] := by
  cases lexemes with
  | nil =>
    have hnone : ∀ d ∈ ([] : List Char).head?, Text.isWhiteSpace d = true := by simp
    obtain ⟨tail, htail, hcut⟩ := Segment.cut_blank hnone hl
    rw [List.append_nil] at hcut
    rw [Lexeme.toList_spaced_singleton, htail]
    exact ⟨_, .cons hcut .nil, rfl, rfl⟩
  | cons m lexemes =>
    have hblank : ∀ d ∈ (' ' :: (Lexeme.spaced (m :: lexemes)).toList).head?,
        Text.isWhiteSpace d = true := by
      rintro _ ⟨⟩
      decide
    obtain ⟨tail, htail, hcut⟩ := Segment.cut_blank hblank hl
    obtain ⟨placed, hplaced, hlexemes, herrors⟩ :=
      h ((p.advanceOver l.text.toList).advanceOver [' '])
    rw [Lexeme.toList_spaced_cons_cons, htail]
    refine ⟨_, .cons hcut (.cons rfl hplaced), ?_, herrors⟩
    exact congrArg (List.cons l) hlexemes

/-- The lexemes of a text are those of the text that spells them one by one. -/
theorem exists_spaced (h : Partition p previous text placed) (q : Position) :
    let lexemes := (placed.filterMap Placed.token?).map Token.toLexeme
    ∃ placed', Partition q previous (Lexeme.spaced lexemes).toList placed' ∧
      (placed'.filterMap Placed.token?).map Token.toLexeme = lexemes ∧
      placed'.filterMap Placed.error? = [] := by
  induction h generalizing q with
  | nil => exact ⟨[], .nil, rfl, rfl⟩
  | @cons p previous c rest rest' segment placed hcut _ ih =>
    cases segment with
    -- What is no lexeme leaves the last one as it was.
    | blank | comment | stray => exact ih q
    | lexeme l => exact exists_spaced_cons (by rw [hcut]) q ih

end Partition

/-- Cutting the texts of the tokens apart again changes nothing. -/
theorem Scan.ofText_spaced (text : List Char) :
    let lexemes := (ofText text).tokens.map Token.toLexeme
    let again := ofText (Lexeme.spaced lexemes).toList
    again.errors = [] ∧ again.tokens.map Token.toLexeme = lexemes := by
  intro lexemes again
  obtain ⟨placed, hplaced, hlexemes, herrors⟩ := (segments_partition text).exists_spaced .first
  obtain rfl : placed = segments (Lexeme.spaced lexemes).toList :=
    (segments_partition _).unique hplaced
  exact ⟨herrors, hlexemes⟩

end LogoServer
