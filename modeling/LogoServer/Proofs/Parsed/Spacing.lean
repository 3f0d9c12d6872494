import LogoServer.Proofs.Parsed.Errors
import LogoServer.Proofs.Parser.Relocate

/-! What stands between the tokens of a text decides nothing. Two texts of the same lexemes are
parsed alike: a move of places carries the tokens of the one to those of the other, and with them
the whole parse. -/
namespace LogoServer

open LogoServer.Parser

/-- No lexeme starts with the character complained about. -/
def Complaint.isUnrecognized : Complaint → Bool
  | .unrecognized _ => true
  | _ => false

/-- Both errors make the same complaint about the token of the same number, each in its own text. -/
def SyntaxError.Corresponds (ts us : List Token) (e e' : SyntaxError) : Prop :=
  ∃ (i : Nat) (t u : Token) (complaint : Complaint), ts[i]? = some t ∧ us[i]? = some u ∧
    e = .atToken complaint t ∧ e' = .atToken complaint u

/-- A statement with the places of its tokens forgotten. -/
def Statement.unplaced : Statement → Statement :=
  Statement.relocate fun _ => .first

theorem Statement.unplaced_relocate (move : Position → Position) (s : Statement) :
    (s.relocate move).unplaced = s.unplaced :=
  s.relocate_relocate move fun _ => .first

/-- Tokens in reading order can be moved onto any tokens of the same lexemes. -/
theorem Token.exists_move {ts us : List Token}
    (hts : ts.Pairwise fun a b => a.position.Before b.position)
    (h : ts.map toLexeme = us.map toLexeme) : ∃ move, us = ts.map (relocate move) := by
  induction ts generalizing us with
  | nil => exact ⟨id, List.map_eq_nil_iff.mp h.symm⟩
  | cons t ts ih =>
    obtain ⟨u, us, rfl, hu, hus⟩ := List.map_eq_cons_iff.mp h.symm
    obtain ⟨hbefore, hts⟩ := List.pairwise_cons.mp hts
    obtain ⟨move, rfl⟩ := ih hts hus.symm
    refine ⟨fun p => if p = t.position then u.position else move p, ?_⟩
    -- The first token is the only one at its place.
    have hsame : ∀ t' ∈ ts, t'.relocate move =
        t'.relocate fun p => if p = t.position then u.position else move p := by
      intro t' ht'
      have hne : t'.position ≠ t.position := by
        intro heq
        exact Position.not_before_self _ (heq ▸ hbefore t' ht')
      simp only [relocate, if_neg hne]
    rw [List.map_cons, List.map_congr_left hsame]
    congr 1
    simp only [relocate, if_true, ← hu]

namespace Parsed

/-- What is wrong with a text besides characters that start no lexeme. -/
def complaints (parsed : Parsed) : List SyntaxError :=
  parsed.errors.filter fun e => !e.complaint.isUnrecognized

/-- The tokens of a text whose letter case is folded, the mark of the end behind them. -/
def foldedStream (text : List Char) : List Token :=
  (foldedScan text).stream

/-- Sorting keeps the complaints of the parser in the order in which they were made. -/
theorem complaints_ofTextWithin (limit : Nat) (text : List Char) :
    (ofTextWithin limit text).complaints =
      (finish limit text).errors.filter fun e => !e.complaint.isUnrecognized := by
  have hstray : (foldedScan text).errors.filter (fun e => !e.complaint.isUnrecognized) = [] := by
    refine List.filter_eq_nil_iff.mpr fun e he => ?_
    obtain ⟨c, _, heq⟩ := Scan.mem_errors_iff.mp he
    rw [heq]
    simp [Complaint.isUnrecognized]
  have hsorted : (finish limit text).errors.Pairwise
      fun a b => a.position.notAfter b.position := by
    refine (finish_errors_pairwise_apart limit text).imp fun {a b} hab => ?_
    rcases hab.2 with hbefore | ⟨hp, _⟩
    · exact Position.notAfter_of_before hbefore
    · rw [hp]
      exact Position.notAfter_refl _
  have htrans (a b c : SyntaxError) : a.position.notAfter b.position = true →
      b.position.notAfter c.position = true → a.position.notAfter c.position = true :=
    Position.notAfter_trans
  have htotal (a b : SyntaxError) :
      (a.position.notAfter b.position || b.position.notAfter a.position) = true :=
    Position.notAfter_total a.position b.position
  have hsublist : (finish limit text).errors.Sublist (ofTextWithin limit text).errors :=
    List.sublist_mergeSort htrans htotal hsorted (List.sublist_append_right _ _)
  refine ((hsublist.filter _).eq_of_length ?_).symm
  rw [((errors_perm limit text).filter _).length_eq, List.filter_append, hstray, List.nil_append]

/-- A complaint of the parser is about a token of the text or about its end. -/
theorem exists_token_of_mem_errors {limit : Nat} {text : List Char} {e : SyntaxError}
    (he : e ∈ (finish limit text).errors) :
    ∃ (i : Nat) (t : Token) (complaint : Complaint), (foldedStream text)[i]? = some t ∧
      e = .atToken complaint t := by
  obtain ⟨notes, hpassage⟩ := exists_notes limit text
  rw [hpassage.errors_eq] at he
  obtain ⟨t, ht, complaint, heq⟩ := hpassage.exists_of_mem_errors he
  obtain ⟨i, hi⟩ := List.mem_iff_getElem?.mp ht
  exact ⟨i, t, complaint, hi, heq⟩

section Spacing

variable {a b : List Char}
  (h : (foldedTokens a).map Token.toLexeme = (foldedTokens b).map Token.toLexeme)
include h

/-- The tokens of one text are moved onto those of the other, and the parse goes with them. -/
theorem exists_move (limit : Nat) : ∃ move : Position → Position,
    foldedStream b = (foldedStream a).map (Token.relocate move) ∧
      (ofTextWithin limit b).statements =
        (ofTextWithin limit a).statements.map (Statement.relocate move) ∧
      (finish limit b).errors = (finish limit a).errors.map (SyntaxError.relocate move) := by
  have hlexemes : (foldedStream a).map Token.toLexeme = (foldedStream b).map Token.toLexeme := by
    change ((foldedScan a).tokens ++ [_]).map _ = ((foldedScan b).tokens ++ [_]).map _
    rw [List.map_append, List.map_append]
    exact congrArg (· ++ _) h
  obtain ⟨move, hmove⟩ := Token.exists_move (Scan.stream_pairwise_before _) hlexemes
  have hsplit : (foldedScan b).tokens ++ [(foldedScan b).eof] =
      (foldedScan a).tokens.map (Token.relocate move) ++ [(foldedScan a).eof.relocate move] :=
    hmove.trans List.map_append
  obtain ⟨htokens, heof⟩ := List.append_inj' hsplit rfl
  have hstart : Moved move [] (.start limit (foldedScan a).tokens (foldedScan a).eof)
      (.start limit (foldedScan b).tokens (foldedScan b).eof) :=
    ⟨rfl, htokens, List.singleton_inj.mp heof, rfl, rfl, rfl⟩
  obtain ⟨hstatements, hfinish⟩ := statements_moves limit .document _ _ hstart
  exact ⟨move, hmove, hstatements, hfinish.errors⟩

theorem ofTextWithin_congr (limit : Nat) :
    (ofTextWithin limit a).statements.map Statement.unplaced =
        (ofTextWithin limit b).statements.map Statement.unplaced ∧
      List.Forall₂ (SyntaxError.Corresponds (foldedStream a) (foldedStream b))
        (ofTextWithin limit a).complaints (ofTextWithin limit b).complaints := by
  obtain ⟨move, hstream, hstatements, herrors⟩ := exists_move h limit
  constructor
  · rw [hstatements, List.map_map]
    exact List.map_congr_left fun s _ => (s.unplaced_relocate move).symm
  · have hkeeps : (fun e : SyntaxError => !e.complaint.isUnrecognized) ∘ SyntaxError.relocate move =
        fun e => !e.complaint.isUnrecognized := rfl
    rw [complaints_ofTextWithin, complaints_ofTextWithin, herrors, List.filter_map, hkeeps,
      List.forall₂_map_right_iff, List.forall₂_same]
    intro e he
    obtain ⟨i, t, complaint, hi, rfl⟩ := exists_token_of_mem_errors (List.mem_of_mem_filter he)
    refine ⟨i, t, t.relocate move, complaint, hi, ?_, rfl, rfl⟩
    rw [hstream, List.getElem?_map, hi]
    rfl

end Spacing

/-- White space, line breaks, comments and characters that start no lexeme decide nothing. If two
texts consist of the same lexemes, their statements are the same but for the places of tokens, and
the same complaints are made in the same order, each about the token of the same number. -/
theorem ofText_congr_of_lexemes (a b : String)
    (h : (foldedTokens a.toList).map Token.toLexeme =
      (foldedTokens b.toList).map Token.toLexeme) :
    (ofText a).statements.map Statement.unplaced = (ofText b).statements.map Statement.unplaced ∧
      List.Forall₂ (SyntaxError.Corresponds (foldedStream a.toList) (foldedStream b.toList))
        (ofText a).complaints (ofText b).complaints :=
  ofTextWithin_congr h nestingLimit

theorem ofText_congr_of_comment :
    (ofText "repeat 2[fd ] )").statements.map Statement.unplaced =
        (ofText "REPEAT 2 ; twice\n[FD $\n]\n  )").statements.map Statement.unplaced ∧
      List.Forall₂ (SyntaxError.Corresponds (foldedStream "repeat 2[fd ] )".toList)
          (foldedStream "REPEAT 2 ; twice\n[FD $\n]\n  )".toList))
        [⟨.mismatched ⟨.rightBracket, "]"⟩ (Kind.accepted Kind.startsExpr), ⟨1, 12⟩, 1⟩,
          ⟨.extraneous ⟨.rightParen, ")"⟩ (Kind.accepted Scope.document.continues), ⟨1, 14⟩, 1⟩]
        [⟨.mismatched ⟨.rightBracket, "]"⟩ (Kind.accepted Kind.startsExpr), ⟨3, 0⟩, 1⟩,
          ⟨.extraneous ⟨.rightParen, ")"⟩ (Kind.accepted Scope.document.continues), ⟨4, 2⟩, 1⟩] := by
  obtain ⟨hstatements, hcomplaints⟩ := ofText_congr_of_lexemes "repeat 2[fd ] )"
    "REPEAT 2 ; twice\n[FD $\n]\n  )" (by decide +kernel)
  refine ⟨hstatements, ?_⟩
  have hfirst : (ofText "repeat 2[fd ] )").complaints =
      [⟨.mismatched ⟨.rightBracket, "]"⟩ (Kind.accepted Kind.startsExpr), ⟨1, 12⟩, 1⟩,
        ⟨.extraneous ⟨.rightParen, ")"⟩ (Kind.accepted Scope.document.continues), ⟨1, 14⟩, 1⟩] :=
    (complaints_ofTextWithin nestingLimit _).trans (by decide +kernel)
  have hsecond : (ofText "REPEAT 2 ; twice\n[FD $\n]\n  )").complaints =
      [⟨.mismatched ⟨.rightBracket, "]"⟩ (Kind.accepted Kind.startsExpr), ⟨3, 0⟩, 1⟩,
        ⟨.extraneous ⟨.rightParen, ")"⟩ (Kind.accepted Scope.document.continues), ⟨4, 2⟩, 1⟩] :=
    (complaints_ofTextWithin nestingLimit _).trans (by decide +kernel)
  rwa [hfirst, hsecond] at hcomplaints

end Parsed

end LogoServer
