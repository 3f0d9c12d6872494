import LogoServer.Parsed.Analysis

/-! Documents: the latest reading of a text, and what is asked of it. -/
namespace LogoServer

/-- Why a request about a document was not answered. -/
inductive Refusal where
  /-- No text was given yet. -/
  | notReady
  | shutDown
  /-- The task broke off, or its worker stopped before it ran. -/
  | taskFailed
  deriving DecidableEq, Repr

structure AnalysisError where
  refusal : Refusal
  uri : String
  deriving DecidableEq, Repr

namespace AnalysisError

def message (e : AnalysisError) : String :=
  match e.refusal with
  | .notReady => "document " ++ e.uri ++ " has not been parsed yet"
  | .shutDown => "worker for " ++ e.uri ++ " has been shut down"
  | .taskFailed => "task for " ++ e.uri ++ " did not complete"

/-- Number of a refusal in a reply: an untimely request, or a fault of the server. -/
def code (e : AnalysisError) : Int :=
  match e.refusal with
  | .notReady => -32600
  | .shutDown | .taskFailed => -32603

end AnalysisError

structure Location where
  uri : String
  span : Span
  deriving DecidableEq, Repr

/-- A document and the reading of the text it was last given. -/
structure Document where
  uri : String
  parsed : Option Parsed := none

namespace Document

def setText (document : Document) (text : String) : Document :=
  { document with parsed := some (.ofText text) }

def isParsed (document : Document) : Bool :=
  document.parsed.isSome

def ask (document : Document) (question : Parsed → α) : Except AnalysisError α :=
  match document.parsed with
  | some parsed => .ok (question parsed)
  | none => .error ⟨.notReady, document.uri⟩

def diagnostics (document : Document) : Except AnalysisError (List Diagnostic) :=
  document.ask Parsed.diagnostics

def highlighting (document : Document) : Except AnalysisError (List Nat) :=
  document.ask Parsed.highlighting

def declaration (document : Document) (line character : Nat) :
    Except AnalysisError (List Location) :=
  document.ask fun parsed => (parsed.declarationsAt line character).map (⟨document.uri, ·⟩)

end Document

end LogoServer
