import LogoServer.Proofs.Token.Partition
import Mathlib.Tactic

/-! How the parts of a text are written, told without the way they are found. A text is cut into
parts that are written so, one behind the other; its tokens and its stray characters are read off
them, and their places tell the lines and characters before them. -/
namespace LogoServer

/-- The place behind a text: lines are counted by their line feeds, columns from the last one on. -/
def Position.behind (text : List Char) : Position :=
  ⟨1 + text.count '\n', (text.reverse.takeWhile (· != '\n')).length⟩

theorem Position.behind_concat (text : List Char) (c : Char) :
    behind (text ++ [c]) = (behind text).advance c := by
  unfold behind advance
  by_cases hc : c = '\n'
  · subst hc
    simp [Nat.add_assoc]
  · simp [hc]

theorem Position.advanceOver_first (text : List Char) : first.advanceOver text = behind text := by
  induction text using List.reverseRecOn with
  | nil => rfl
  | append_singleton text c ih =>
    rw [advanceOver_append, ih, behind_concat]
    rfl

/-- How a lexeme of each kind is written. Nothing is written as the mark of the end. -/
inductive Spelling : Kind → List Char → Prop
  | marks {kind : Kind} {text : List Char} (h : kind.marks? = some text) : Spelling kind text
  | keyword (k : Keyword) : Spelling (.keyword k) k.text.toList
  | name {c : Char} {rest : List Char} (hc : Segment.startsName c = true)
      (hrest : ∀ d ∈ rest, Segment.continuesName d = true)
      (hfree : Keyword.lookup (String.ofList (c :: rest)) = none) : Spelling .name (c :: rest)
  | reference {c : Char} {rest : List Char} (hc : Segment.startsName c = true)
      (hrest : ∀ d ∈ rest, Segment.continuesName d = true) : Spelling .colonName (':' :: c :: rest)
  | word {rest : List Char} (hrest : ∀ d ∈ rest, Segment.continuesWord d = true) :
      Spelling .word ('"' :: rest)
  | number {sign whole fraction : List Char} (hsign : sign = [] ∨ sign = ['-']) (hne : whole ≠ [])
      (hwhole : ∀ d ∈ whole, d.isDigit = true)
      (hfraction : fraction = [] ∨
        ∃ ds, fraction = '.' :: ds ∧ ds ≠ [] ∧ ∀ d ∈ ds, d.isDigit = true) :
      Spelling .number (sign ++ whole ++ fraction)

namespace Segment

/-- Nothing that is written starts with the character: no white space, comment or lexeme. A colon is
one such character unless a name stands behind it. -/
structure Unrecognized (c : Char) (behind : List Char) : Prop where
  isWhiteSpace : Text.isWhiteSpace c = false
  isDigit : c.isDigit = false
  startsName : startsName c = false
  notMem : c ∉ [';', '[', ']', '(', ')', '+', '-', '*', '/', '=', '<', '>', '"']
  colon : c = ':' → firstIs Segment.startsName behind = false

/-- What may stand in a text before what is behind it. -/
inductive Stands : Segment → List Char → Prop
  | blank {c : Char} {behind : List Char} (h : Text.isWhiteSpace c = true) :
      Stands (.blank c) behind
  /-- A comment goes up to the next line feed, or to the end. -/
  | comment {text behind : List Char} (hline : '\n' ∉ text)
      (hend : ∀ c ∈ behind.head?, c = '\n') : Stands (.comment (';' :: text)) behind
  | lexeme {l : Lexeme} {behind : List Char} (h : Spelling l.kind l.text.toList)
      (hend : ∀ c ∈ behind.head?, l.kind.goesOn c = false) : Stands (.lexeme l) behind
  | stray {c : Char} {behind : List Char} (h : Unrecognized c behind) : Stands (.stray c) behind

theorem of_mem_head?_dropWhile {test : Char → Bool} {text : List Char} {c : Char}
    (h : c ∈ (text.dropWhile test).head?) : test c = false := by
  have hstop := List.head?_dropWhile_not test text
  rwa [Option.mem_def.mp h] at hstop

/-- Marks stand where no further mark belongs to them. -/
theorem cutLexeme_stands {kind : Kind} {text rest : List Char} (h : kind.marks? = some text)
    (hend : ∀ c ∈ rest.head?, kind.goesOn c = false) :
    (cutLexeme kind text rest).1.Stands (cutLexeme kind text rest).2 := by
  refine .lexeme ?_ hend
  rw [String.toList_ofList]
  exact .marks h

theorem takeWhile_ne_nil_of_firstIs {test : Char → Bool} {text : List Char}
    (h : firstIs test text = true) : text.takeWhile test ≠ [] := by
  cases text with
  | nil => cases h
  | cons c text =>
    have hc : test c = true := h
    rw [List.takeWhile_cons_of_pos hc]
    exact List.cons_ne_nil _ _

/-- What may stand behind the digits of a number: nothing, or a point and digits. -/
def IsFraction (text : List Char) : Prop :=
  text = [] ∨ ∃ d ds, text = '.' :: d :: ds ∧ ∀ x ∈ d :: ds, x.isDigit = true

/-- A number is a sign, if any, digits, and perhaps a fraction; no digit stands behind it. -/
theorem exists_cutNumber_eq (sign : List Char) {text : List Char}
    (hdigit : firstIs Char.isDigit text = true) :
    ∃ whole fraction rest : List Char, whole ≠ [] ∧ (∀ d ∈ whole, d.isDigit = true) ∧
      IsFraction fraction ∧ (∀ c ∈ rest.head?, c.isDigit = false) ∧
      cutNumber sign text = cutLexeme .number (sign ++ (whole ++ fraction)) rest := by
  have hne := takeWhile_ne_nil_of_firstIs hdigit
  have hwhole : ∀ d ∈ text.takeWhile Char.isDigit, d.isDigit = true :=
    fun _ => List.mem_takeWhile_imp
  have hend : ∀ c ∈ (text.dropWhile Char.isDigit).head?, c.isDigit = false :=
    fun _ => of_mem_head?_dropWhile
  refine ⟨text.takeWhile Char.isDigit, ?_⟩
  unfold cutNumber
  split
  · rename_i d rest hrest
    split_ifs with hd
    · refine ⟨'.' :: (d :: rest).takeWhile Char.isDigit, (d :: rest).dropWhile Char.isDigit, hne,
        hwhole, .inr ⟨d, rest.takeWhile Char.isDigit, ?_, ?_⟩, fun _ => of_mem_head?_dropWhile, ?_⟩
      · rw [List.takeWhile_cons_of_pos hd]
      · rw [← List.takeWhile_cons_of_pos hd]
        exact fun _ => List.mem_takeWhile_imp
      · simp [cutWhile]
    · exact ⟨[], _, hne, hwhole, .inl rfl, hrest ▸ hend, by simp⟩
  · exact ⟨[], _, hne, hwhole, .inl rfl, hend, by simp⟩

theorem cutNumber_stands {sign text : List Char} (hsign : sign = [] ∨ sign = ['-'])
    (hdigit : firstIs Char.isDigit text = true) :
    (cutNumber sign text).1.Stands (cutNumber sign text).2 := by
  obtain ⟨whole, fraction, rest, hne, hwhole, hfraction, hend, hcut⟩ :=
    exists_cutNumber_eq sign hdigit
  have hdigits : fraction = [] ∨
      ∃ ds, fraction = '.' :: ds ∧ ds ≠ [] ∧ ∀ d ∈ ds, d.isDigit = true :=
    hfraction.imp_right fun ⟨d, ds, heq, hds⟩ => ⟨d :: ds, heq, List.cons_ne_nil _ _, hds⟩
  rw [hcut]
  refine .lexeme ?_ hend
  rw [String.toList_ofList, ← List.append_assoc]
  exact .number hsign hne hwhole hdigits

theorem cutName_stands {c : Char} {rest : List Char} (hc : startsName c = true) :
    (cutName (c :: rest)).1.Stands (cutName (c :: rest)).2 := by
  have hcontinues := continuesName_of_startsName hc
  unfold cutName
  rw [List.takeWhile_cons_of_pos hcontinues, List.dropWhile_cons_of_pos hcontinues]
  refine .lexeme ?_ fun d hd => ?_
  · rw [String.toList_ofList]
    cases hlookup : Keyword.lookup (String.ofList (c :: rest.takeWhile continuesName)) with
    | none => exact .name hc (fun _ => List.mem_takeWhile_imp) hlookup
    | some k =>
      have htext := List.find?_some hlookup
      rw [beq_iff_eq, ← String.toList_inj, String.toList_ofList] at htext
      rw [← htext]
      exact .keyword k
  · have hstop := of_mem_head?_dropWhile hd
    cases Keyword.lookup (String.ofList (c :: rest.takeWhile continuesName)) <;> exact hstop

theorem cutReference_stands {rest : List Char} (hrest : firstIs startsName rest = true) :
    (cutWhile .colonName [':'] continuesName rest).1.Stands
      (cutWhile .colonName [':'] continuesName rest).2 := by
  cases rest with
  | nil => cases hrest
  | cons c rest =>
    refine .lexeme ?_ fun d => of_mem_head?_dropWhile
    rw [String.toList_ofList, List.takeWhile_cons_of_pos (continuesName_of_startsName hrest)]
    exact .reference hrest fun _ => List.mem_takeWhile_imp

theorem cutWord_stands (rest : List Char) :
    (cutWhile .word ['"'] continuesWord rest).1.Stands
      (cutWhile .word ['"'] continuesWord rest).2 := by
  refine .lexeme ?_ fun d => of_mem_head?_dropWhile
  rw [String.toList_ofList]
  exact .word fun _ => List.mem_takeWhile_imp

theorem comment_stands (rest : List Char) :
    Stands (.comment (';' :: rest.takeWhile (· != '\n'))) (rest.dropWhile (· != '\n')) := by
  refine .comment (fun hmem => ?_) fun c hc => ?_
  · exact absurd (List.mem_takeWhile_imp hmem) (by decide)
  · simpa using of_mem_head?_dropWhile hc

/-- Whatever is cut off a text may stand before what is left of it. -/
theorem cut_stands (previous : Option Kind) (c : Char) (rest : List Char) :
    (cut previous c rest).1.Stands (cut previous c rest).2 := by
  cases opening c rest with
  | blank hblank =>
    rw [cut_of_isWhiteSpace previous hblank]
    exact .blank hblank
  | comment =>
    rw [cut_semicolon]
    exact comment_stands _
  | marks kind hmarks hminus hend =>
    rw [cut_marks previous hmarks hminus hend]
    exact cutLexeme_stands hmarks hend
  | minus =>
    rw [cut_minus]
    split_ifs with hsign
    · exact cutNumber_stands (.inr rfl) (Bool.and_eq_true_iff.mp hsign).2
    · exact cutLexeme_stands rfl fun _ _ => rfl
  | quote =>
    rw [cut_quote]
    exact cutWord_stands _
  | colon =>
    rw [cut_colon]
    split_ifs with hname
    · exact cutReference_stands hname
    · exact .stray ⟨by decide, by decide, by decide, by decide, fun _ => by simpa using hname⟩
  | unmarked hc =>
    rw [cut_unmarked previous hc]
    split_ifs with hdigit hname
    · exact cutNumber_stands (.inl rfl) hdigit
    · exact cutName_stands hname
    · exact .stray ⟨hc.isWhiteSpace, by simpa using hdigit, by simpa using hname, hc.notMem,
        fun hcolon => absurd hcolon hc.ne_colon⟩

end Segment

/-- The characters of parts that stand one behind the other. -/
def Placed.charsOf (parts : List Placed) : List Char :=
  parts.flatMap fun x => x.segment.chars

theorem Placed.charsOf_cons (x : Placed) (parts : List Placed) :
    charsOf (x :: parts) = x.segment.chars ++ charsOf parts :=
  List.flatMap_cons

namespace Partition

variable {p : Position} {previous : Option Kind} {text : List Char} {placed : List Placed}

theorem charsOf_eq (h : Partition p previous text placed) : Placed.charsOf placed = text := by
  induction h with
  | nil => rfl
  | @cons p previous c rest rest' segment placed hcut _ ih =>
    have happend := Segment.cut_append previous c rest
    rw [hcut] at happend
    rw [Placed.charsOf_cons, ih]
    exact happend

/-- A part stands behind those before it and before those behind it. -/
theorem stands (h : Partition p previous text placed) {before behind : List Placed} {x : Placed}
    (hx : placed = before ++ x :: behind) :
    x.position = p.advanceOver (Placed.charsOf before) ∧
      x.segment.Stands (Placed.charsOf behind) := by
  induction h generalizing before with
  | nil => simp at hx
  | @cons p previous c rest rest' segment placed hcut hrest ih =>
    cases before with
    | nil =>
      obtain ⟨rfl, rfl⟩ := List.cons.inj hx
      have hstands := Segment.cut_stands previous c rest
      rw [hcut, ← hrest.charsOf_eq] at hstands
      exact ⟨rfl, hstands⟩
    | cons y before =>
      obtain ⟨rfl, hplaced⟩ := List.cons.inj hx
      obtain ⟨hposition, hstands⟩ := ih hplaced
      refine ⟨?_, hstands⟩
      rw [hposition, Placed.charsOf_cons, Position.advanceOver_append]

end Partition

/-- A text is cut into parts that stand one behind the other and make it up. Its tokens are the
lexemes among them, then the mark of the end at the end; its errors are the characters that nothing
written starts with. Tokens are there, hold no white space, stand in reading order and do not
overlap. -/
theorem Scan.parts_of_text (text : List Char) :
    ∃ parts : List Placed,
      Placed.charsOf parts = text ∧
      (∀ before x behind, parts = before ++ x :: behind →
        x.position = .behind (Placed.charsOf before) ∧
          x.segment.Stands (Placed.charsOf behind)) ∧
      (ofText text).stream = parts.filterMap Placed.token? ++ [.endOfText (.behind text)] ∧
      (ofText text).errors = parts.filterMap Placed.error? ∧
      (∀ t ∈ (ofText text).tokens, t.kind ≠ .eof ∧ t.text ≠ "" ∧
        ∀ c ∈ t.text.toList, Text.isWhiteSpace c = false) ∧
      (ofText text).tokens.Pairwise fun a b => a.position.Before b.position ∧ a.Precedes b := by
  have hpartition := segments_partition text
  refine ⟨segments text, hpartition.charsOf_eq, ?_, ?_, rfl, ?_, ?_⟩
  · intro before x behind hx
    rw [← Position.advanceOver_first]
    exact hpartition.stands hx
  · rw [← Position.advanceOver_first]
    rfl
  · intro t ht
    have hwell := tokens_wellFormed ht
    refine ⟨hwell.kind_ne_eof, ?_, hwell.unbroken⟩
    intro hempty
    exact hwell.nonempty (by simp [hempty])
  · refine (tokens_pairwise_precedes text).imp_of_mem ?_
    intro a b ha _ hab
    exact ⟨hab.before (tokens_wellFormed ha), hab⟩

end LogoServer
