import LogoServer.Log

/-! What passes between the server and an editor. -/
namespace LogoServer

/-- A new text of a document, or of a part of it. -/
structure Change where
  text : String
  isPartial : Bool
  deriving DecidableEq, Repr

inductive Call where
  /-- Agrees on how to speak; the editor names the ways it can count columns. -/
  | handshake (encodings : List String)
  | ready
  | opened (uri : String) (version : Int) (text : String)
  | changed (uri : String) (version : Int) (changes : List Change)
  | saved (uri : String)
  | closed (uri : String)
  | highlighting (uri : String)
  | declaration (uri : String) (line character : Nat)
  | shutdown
  deriving DecidableEq, Repr

structure Capabilities where
  /-- How columns are counted, if other than by default. -/
  positionEncoding : Option String
  openClose : Bool
  /-- Number of the way in which changes are told: one, by the whole text. -/
  changeKind : Nat
  save : Bool
  declarations : Bool
  legend : Highlight.Legend
  highlightsRange : Bool
  highlightsFull : Bool
  name : String
  version : String
  deriving DecidableEq, Repr

/-- The way of counting columns that counts characters. -/
def wideColumns : String := "utf-32"

def Capabilities.offered (encodings : List String) : Capabilities where
  positionEncoding := if wideColumns ∈ encodings then some wideColumns else none
  openClose := true
  changeKind := 1
  save := true
  declarations := true
  legend := Highlight.legend
  highlightsRange := false
  highlightsFull := true
  name := "logo-lsp"
  version := "1.0.0"

inductive Response where
  | nothing
  | capabilities (offer : Capabilities)
  | highlighting (data : List Highlight.Delta)
  | locations (found : List Location)
  | refused (cause : AnalysisError)
  deriving DecidableEq, Repr

/-- What the server tells an editor unasked. -/
inductive Message where
  | publishDiagnostics (uri : String) (diagnostics : List Diagnostic) (version : Option Int)
  | showError (text : String)
  deriving DecidableEq, Repr

def bytesPerMegabyte : Nat := 1024 * 1024

def Message.tooLarge (bytes limit : Nat) : Message :=
  .showError ("Document too large: " ++ toString bytes ++ " bytes exceeds maximum of " ++
    toString limit ++ " bytes (" ++ toString (limit / bytesPerMegabyte) ++ " MB)")

/-- What a step of the server leaves outside it. -/
inductive Effect where
  | sent (message : Message)
  | logged (entry : LogEntry)
  deriving DecidableEq, Repr

end LogoServer
