import LogoServer.Proofs.Analysis.Highlight
import LogoServer.Proofs.Parsed.Errors
import LogoServer.Proofs.Text.Lines
import Mathlib.Tactic

/-! What an editor is told lies inside the document. Every place is found on the folded text; a
stretch of one of its lines is a stretch of the same line as it was written. -/
namespace LogoServer

open Highlight

namespace Span

/-- The span is a stretch of a line of the text, perhaps an empty one. -/
def Inside (span : Span) (text : List Char) : Prop :=
  ∃ line, (Text.lines text)[span.line]? = some line ∧
    span.start ≤ span.finish ∧ span.finish ≤ line.length

/-- The span is a stretch of a line of the text, and the token is what stands there but for letter
case. -/
def Spells (span : Span) (text : List Char) (t : Token) : Prop :=
  ∃ line, (Text.lines text)[span.line]? = some line ∧
    span.start < span.finish ∧ span.finish ≤ line.length ∧
    (line.extract span.start span.finish).map Text.foldCase = t.text.toList

/-- A part of the folded text that keeps to one line is found in the text at its own place. -/
theorem exists_line_of_part {text before part behind : List Char} (htext : text.length < 2 ^ 32)
    (hsplit : text.map Text.foldCase = before ++ part ++ behind) (hpart : '\n' ∉ part) :
    ∃ line, (Text.lines text)[(ofPlace (.behind before) part.length).line]? = some line ∧
      (ofPlace (.behind before) part.length).start + part.length =
        (ofPlace (.behind before) part.length).finish ∧
      (ofPlace (.behind before) part.length).finish ≤ line.length ∧
      (line.extract (ofPlace (.behind before) part.length).start
        (ofPlace (.behind before) part.length).finish).map Text.foldCase = part := by
  obtain ⟨text', written, rfl, hfolded, hbehind⟩ := List.map_eq_append_iff.mp hsplit
  obtain ⟨before, part, rfl, rfl, rfl⟩ := List.map_eq_append_iff.mp hfolded
  have hunbroken : '\n' ∉ part := by
    intro hmem
    exact hpart (List.mem_map.mpr ⟨_, hmem, Text.foldCase_eq_newline_iff.mpr rfl⟩)
  obtain ⟨left, right, hline, hleft⟩ := @Text.exists_line before part hunbroken written
  have hcount : before.count '\n' ≤ before.length := List.count_le_length
  have hcolumn : (Position.behind before).column ≤ before.length := by
    have htake := (@List.takeWhile_sublist _ before.reverse (· != '\n')).length_le
    rwa [List.length_reverse] at htake
  rw [List.length_append, List.length_append] at htext
  -- Nothing in a text of this length is cut short by the greatest coordinate.
  have hspan : ofPlace (.behind (before.map Text.foldCase)) (part.map Text.foldCase).length =
      ⟨before.count '\n', left.length, left.length + part.length⟩ := by
    rw [Text.behind_map_foldCase, List.length_map, hleft]
    simp only [ofPlace, editorLine, coordinate, maxCoordinate, Span.mk.injEq]
    simp only [Position.behind] at hcolumn ⊢
    omega
  rw [hspan, List.length_map]
  refine ⟨left ++ part ++ right, hline, rfl, ?_, ?_⟩
  · simp only [List.length_append]
    omega
  · simp [List.extract_eq_take_drop]

theorem inside_of_part {text before part behind : List Char} (htext : text.length < 2 ^ 32)
    (hsplit : text.map Text.foldCase = before ++ part ++ behind) (hpart : '\n' ∉ part) :
    (ofPlace (.behind before) part.length).Inside text := by
  obtain ⟨line, hline, hlength, hfinish, _⟩ := exists_line_of_part htext hsplit hpart
  exact ⟨line, hline, by omega, hfinish⟩

/-- A token spells what stands in its span. -/
theorem ofToken_spells {text : List Char} (htext : text.length < 2 ^ 32) {t : Token}
    (ht : t ∈ foldedTokens text) : (ofToken t).Spells text t := by
  have hwell := Scan.tokens_wellFormed ht
  obtain ⟨before, behind, hsplit, hposition⟩ :=
    (segments_partition _).exists_split (Scan.mem_tokens_iff.mp ht)
  simp only [Position.advanceOver_first, Segment.chars_lexeme] at hsplit hposition
  have hunbroken : '\n' ∉ t.text.toList := by
    intro hmem
    exact absurd (hwell.unbroken _ hmem) (by decide)
  obtain ⟨line, hline, hlength, hfinish, hspelled⟩ := exists_line_of_part htext hsplit hunbroken
  have hpos := List.length_pos_iff.mpr hwell.nonempty
  have hspan : ofToken t = ofPlace (.behind before) t.text.toList.length := by
    rw [ofToken, hposition, Lexeme.length, String.length_toList]
  rw [hspan]
  exact ⟨line, hline, by omega, hfinish, hspelled⟩

theorem Spells.inside {span : Span} {text : List Char} {t : Token} (h : span.Spells text t) :
    span.Inside text := by
  obtain ⟨line, hline, hlt, hfinish, _⟩ := h
  exact ⟨line, hline, hlt.le, hfinish⟩

end Span

namespace Parsed

variable {text : String}

/-- Complaints are about tokens, about the end, or about characters that stand for themselves. -/
theorem error_inside (htext : text.length < 2 ^ 32) {e : SyntaxError}
    (he : e ∈ (ofText text).errors) : (Span.ofPlace e.position e.length).Inside text.toList := by
  have hlength : text.toList.length < 2 ^ 32 := by rwa [String.length_toList]
  have hperm := errors_perm nestingLimit text.toList
  rcases List.mem_append.mp (hperm.mem_iff.mp he) with he | he
  · obtain ⟨c, hmem, hstray⟩ := Scan.mem_errors_iff.mp he
    obtain ⟨before, behind, hsplit, hposition⟩ := (segments_partition _).exists_split hmem
    rw [Position.advanceOver_first] at hposition
    change e.position = _ at hposition
    have hnothing : e.length = 0 := by rw [hstray]
    rw [hposition, hnothing]
    have hempty : text.toList.map Text.foldCase = before ++ [] ++ c :: behind := by
      simpa using hsplit
    exact Span.inside_of_part hlength hempty List.not_mem_nil
  · obtain ⟨notes, hpassage⟩ := exists_notes nestingLimit text.toList
    rw [hpassage.errors_eq] at he
    obtain ⟨t, ht, complaint, rfl⟩ := hpassage.exists_of_mem_errors he
    rcases List.mem_append.mp ht with ht | ht
    · have hkind : t.kind ≠ .eof := (Scan.tokens_wellFormed ht).kind_ne_eof
      have hspells := Span.ofToken_spells hlength ht
      rw [SyntaxError.atToken, Lexeme.width, if_neg hkind]
      exact hspells.inside
    · obtain rfl := List.mem_singleton.mp ht
      have hposition : (foldedScan text.toList).eof.position =
          .behind (text.toList.map Text.foldCase) := Position.advanceOver_first _
      change (Span.ofPlace (foldedScan text.toList).eof.position 0).Inside text.toList
      rw [hposition]
      have hempty : text.toList.map Text.foldCase = text.toList.map Text.foldCase ++ [] ++ [] := by
        simp
      exact Span.inside_of_part hlength hempty List.not_mem_nil

theorem event_spells (htext : text.length < 2 ^ 32) {e : Event} (he : e ∈ (ofText text).events) :
    (Span.ofToken e.token).Spells text.toList e.token := by
  have hlength : text.toList.length < 2 ^ 32 := by rwa [String.length_toList]
  exact Span.ofToken_spells hlength
    ((events_gathered nestingLimit text.toList).sublist.subset (List.mem_map_of_mem he))

/-- Whatever an editor is told about a text that it can count lies on the lines of that text as it
was written. A declaration and a coloured stretch are made from a token, and the characters they
cover are the token's own but for letter case. -/
theorem spans_inside_text (text : String) (htext : text.length < 2 ^ 32) :
    (∀ d ∈ (ofText text).diagnostics, d.span.Inside text.toList) ∧
      (∀ d ∈ Declaration.ofEvents (ofText text).events, ∃ e ∈ (ofText text).events,
        Declaration.ofEvent? e = some d ∧ d.span.Spells text.toList e.token) ∧
      (∀ a ∈ Shade.decode (ofText text).highlighting, ∃ e ∈ (ofText text).events,
        (Mark.ofEvent? e).map Mark.shade = some a ∧
          Span.Spells ⟨a.line, a.start, a.start + a.length⟩ text.toList e.token) := by
  refine ⟨fun d hd => ?_, fun d hd => ?_, fun a ha => ?_⟩
  · obtain ⟨e, he, rfl⟩ := List.mem_map.mp hd
    exact error_inside htext he
  · obtain ⟨e, he, hd⟩ := List.mem_filterMap.mp hd
    refine ⟨e, he, hd, ?_⟩
    have hspan : d.span = Span.ofToken e.token := by
      rcases e with t | t | t | t | t | ⟨form, t⟩ | ⟨_ | _, t⟩ | ⟨form, t⟩ | ⟨form, t⟩ <;>
        cases hd <;> rfl
    rw [hspan]
    exact event_spells htext he
  · rw [highlighting, Mark.decode_encode (marks_unclamped htext)] at ha
    obtain ⟨m, hm, rfl⟩ := List.mem_map.mp ha
    obtain ⟨e, he, hm⟩ := List.mem_filterMap.mp hm
    have hshade : (Mark.ofEvent? e).map Mark.shade = some m.shade := by rw [hm]; rfl
    refine ⟨e, he, hshade, ?_⟩
    rw [map_shade_ofEvent? htext he] at hshade
    obtain ⟨hline, hstart, hlength⟩ := Event.shade?_eq_some hshade
    rw [hline, hstart, hlength]
    have hspells := event_spells htext he
    rwa [ofToken_eq_extent htext he] at hspells

theorem spans_inside_text_of_make :
    (ofText "MAKE \"İd 1 )\nfd :İd").diagnostics.map Diagnostic.span = [⟨0, 11, 12⟩] ∧
      (∀ d ∈ (ofText "MAKE \"İd 1 )\nfd :İd").diagnostics,
        d.span.Inside "MAKE \"İd 1 )\nfd :İd".toList) ∧
      (Declaration.ofEvents (ofText "MAKE \"İd 1 )\nfd :İd").events).map Declaration.span =
        [⟨0, 5, 8⟩] ∧
      ∀ d ∈ Declaration.ofEvents (ofText "MAKE \"İd 1 )\nfd :İd").events,
        ∃ e ∈ (ofText "MAKE \"İd 1 )\nfd :İd").events, Declaration.ofEvent? e = some d ∧
          d.span.Spells "MAKE \"İd 1 )\nfd :İd".toList e.token := by
  obtain ⟨hdiagnostics, hdeclarations, _⟩ := spans_inside_text "MAKE \"İd 1 )\nfd :İd" (by decide)
  exact ⟨by decide +kernel, hdiagnostics, by decide +kernel, hdeclarations⟩

end Parsed

end LogoServer
