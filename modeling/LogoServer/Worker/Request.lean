import LogoServer.Document

/-! What a worker is asked to do with its document, and what comes of it. -/
namespace LogoServer

inductive Query where
  | setText (text : String)
  | diagnostics
  | highlighting
  | declaration (line character : Nat)
  | isParsed
  | uri
  deriving DecidableEq, Repr

inductive Reply where
  | done
  | diagnostics (found : List Diagnostic)
  | numbers (data : List Nat)
  | deltas (data : List Highlight.Delta)
  | locations (found : List Location)
  | flag (value : Bool)
  | uri (value : String)
  /-- The worker a task ran on and the name of its thread. -/
  | identity (worker : Nat) (thread : String)
  deriving DecidableEq, Repr

def Document.answer (document : Document) : Query → Except AnalysisError Reply × Document
  | .setText text => (.ok .done, document.setText text)
  | .diagnostics => (document.diagnostics.map .diagnostics, document)
  | .highlighting => (document.highlighting.map .numbers, document)
  | .declaration line character =>
    ((document.declaration line character).map .locations, document)
  | .isParsed => (.ok (.flag document.isParsed), document)
  | .uri => (.ok (.uri document.uri), document)

/-- What a task that breaks off leaves behind. -/
inductive Payload where
  | text (message : String)
  | other
  deriving DecidableEq, Repr

def Payload.message : Payload → String
  | .text message => message
  | .other => "unknown panic"

inductive Request where
  | setText (text : String)
  | highlighting
  | declaration (line character : Nat)
  | query (q : Query)
  | identify
  /-- Breaks off without touching the document. -/
  | panic (payload : Payload)
  /-- Keeps the worker busy until it is let go. -/
  | pause
  deriving DecidableEq, Repr

inductive Ending where
  | returned (result : Except AnalysisError Reply)
  | panicked (payload : Payload)

def threadName (worker : Nat) : String :=
  "logo-document-" ++ toString worker

namespace Request

def perform (worker : Nat) (document : Document) : Request → Ending × Document
  | .setText text =>
    let document := document.setText text
    (.returned (document.diagnostics.map .diagnostics), document)
  | .highlighting =>
    (.returned (document.highlighting.map (.deltas ∘ Highlight.Delta.ofNumbers)), document)
  | .declaration line character =>
    (.returned ((document.declaration line character).map .locations), document)
  | .query q =>
    let (result, document) := document.answer q
    (.returned result, document)
  | .identify => (.returned (.ok (.identity worker (threadName worker))), document)
  | .panic payload => (.panicked payload, document)
  | .pause => (.returned (.ok .done), document)

end Request

end LogoServer
