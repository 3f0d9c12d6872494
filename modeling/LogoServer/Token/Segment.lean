import LogoServer.Text.WhiteSpace
import LogoServer.Text.Numeric
import LogoServer.Token.Basic

/-! The pieces a text falls into: blanks, comments, lexemes and stray characters. -/
namespace LogoServer

inductive Segment where
  | blank (c : Char)
  /-- A semicolon and the rest of its line. -/
  | comment (text : List Char)
  | lexeme (l : Lexeme)
  /-- A character that starts no lexeme. -/
  | stray (c : Char)
  deriving DecidableEq, Repr

namespace Segment

def chars : Segment → List Char
  | .blank c | .stray c => [c]
  | .comment text => text
  | .lexeme l => l.text.toList

@[simp] theorem chars_blank (c : Char) : (blank c).chars = [c] := rfl

@[simp] theorem chars_comment (text : List Char) : (comment text).chars = text := rfl

@[simp] theorem chars_lexeme (l : Lexeme) : (lexeme l).chars = l.text.toList := rfl

@[simp] theorem chars_stray (c : Char) : (stray c).chars = [c] := rfl

def kind? : Segment → Option Kind
  | .lexeme l => some l.kind
  | _ => none

def startsName (c : Char) : Bool :=
  Text.isAlphabetic c || c == '_'

def continuesName (c : Char) : Bool :=
  Text.isAlphanumeric c || c == '_' || c == '.' || c == '?'

def continuesWord (c : Char) : Bool :=
  !Text.isWhiteSpace c && c != '[' && c != ']' && c != '(' && c != ')'

def cutLexeme (kind : Kind) (text rest : List Char) : Segment × List Char :=
  (.lexeme ⟨kind, String.ofList text⟩, rest)

/-- Cuts off a lexeme: `start`, then as many characters as pass the test. -/
def cutWhile (kind : Kind) (start : List Char) (test : Char → Bool) (text : List Char) :
    Segment × List Char :=
  cutLexeme kind (start ++ text.takeWhile test) (text.dropWhile test)

/-- Cuts off a number behind the sign given: digits, and a fraction if a digit follows the point. -/
def cutNumber (sign : List Char) (text : List Char) : Segment × List Char :=
  let whole := sign ++ text.takeWhile Char.isDigit
  match text.dropWhile Char.isDigit with
  | '.' :: d :: rest =>
    if d.isDigit then cutWhile .number (whole ++ ['.']) Char.isDigit (d :: rest)
    else cutLexeme .number whole ('.' :: d :: rest)
  | rest => cutLexeme .number whole rest

/-- Cuts off a name, which may spell a keyword. -/
def cutName (text : List Char) : Segment × List Char :=
  let name := text.takeWhile continuesName
  let kind := ((Keyword.lookup (String.ofList name)).map Kind.keyword).getD .name
  cutLexeme kind name (text.dropWhile continuesName)

def firstIs (test : Char → Bool) : List Char → Bool
  | [] => false
  | c :: _ => test c

/-- Cuts the first segment off the text `c :: rest`; `previous` is the kind of the lexeme before. -/
def cut (previous : Option Kind) (c : Char) (rest : List Char) : Segment × List Char :=
  if Text.isWhiteSpace c then (.blank c, rest)
  else match c, rest with
    | ';', _ => (.comment (c :: rest.takeWhile (· != '\n')), rest.dropWhile (· != '\n'))
    | '[', _ => cutLexeme .leftBracket [c] rest
    | ']', _ => cutLexeme .rightBracket [c] rest
    | '(', _ => cutLexeme .leftParen [c] rest
    | ')', _ => cutLexeme .rightParen [c] rest
    | '+', _ => cutLexeme .plus [c] rest
    | '*', _ => cutLexeme .star [c] rest
    | '/', _ => cutLexeme .slash [c] rest
    | '=', _ => cutLexeme .equal [c] rest
    | '<', '=' :: rest => cutLexeme .lessEqual [c, '='] rest
    | '<', '>' :: rest => cutLexeme .notEqual [c, '>'] rest
    | '<', _ => cutLexeme .less [c] rest
    | '>', '=' :: rest => cutLexeme .greaterEqual [c, '='] rest
    | '>', _ => cutLexeme .greater [c] rest
    | '-', _ =>
      -- Behind a value the minus subtracts, even in front of a digit.
      if !previous.any Kind.endsValue && firstIs Char.isDigit rest then cutNumber [c] rest
      else cutLexeme .minus [c] rest
    | '"', _ => cutWhile .word [c] continuesWord rest
    | ':', _ =>
      if firstIs startsName rest then cutWhile .colonName [c] continuesName rest
      else (.stray c, rest)
    | _, _ =>
      if c.isDigit then cutNumber [] (c :: rest)
      else if startsName c then cutName (c :: rest)
      else (.stray c, rest)

theorem cutLexeme_append (kind : Kind) (text rest : List Char) :
    (cutLexeme kind text rest).1.chars ++ (cutLexeme kind text rest).2 = text ++ rest := by
  simp [cutLexeme]

theorem cutWhile_append (kind : Kind) (start : List Char) (test : Char → Bool)
    (text : List Char) :
    (cutWhile kind start test text).1.chars ++ (cutWhile kind start test text).2 =
      start ++ text := by
  rw [cutWhile, cutLexeme_append, List.append_assoc, List.takeWhile_append_dropWhile]

theorem cutNumber_append (sign text : List Char) :
    (cutNumber sign text).1.chars ++ (cutNumber sign text).2 = sign ++ text := by
  have h := @List.takeWhile_append_dropWhile _ Char.isDigit text
  simp only [cutNumber]
  split
  · rename_i d rest hd
    rw [hd] at h
    split <;> simpa [cutWhile_append, cutLexeme_append] using h
  · simp [cutLexeme_append]

theorem cutName_append (text : List Char) :
    (cutName text).1.chars ++ (cutName text).2 = text := by
  rw [cutName, cutLexeme_append, List.takeWhile_append_dropWhile]

/-- Cutting loses nothing: the segment and what is left make up the text. -/
theorem cut_append (previous : Option Kind) (c : Char) (rest : List Char) :
    (cut previous c rest).1.chars ++ (cut previous c rest).2 = c :: rest := by
  unfold cut
  split
  · rfl
  · split <;> (try split) <;> (try split) <;>
      simp [cutLexeme_append, cutWhile_append, cutNumber_append, cutName_append]

end Segment

end LogoServer
