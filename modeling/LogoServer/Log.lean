import LogoServer.Document

/-! What the server tells of itself. -/
namespace LogoServer

inductive LogLevel where
  | info | warn | error
  deriving DecidableEq, Repr

def LogLevel.name : LogLevel → String
  | .info => "INFO"
  | .warn => "WARN"
  | .error => "ERROR"

inductive LogEntry where
  | starting
  /-- Columns count characters, which the client cannot be told. -/
  | columnsMayDrift
  | ready
  | stopping
  | opened (uri : String) (bytes lines : Nat)
  | tooLarge (uri : String) (bytes limit : Nat)
  | partialChange (uri : String)
  | emptyChange (uri : String)
  | changeDropped (uri : String) (cause : AnalysisError)
  | noDiagnostics (uri : String) (cause : AnalysisError)
  | workerNotStarted (uri : String) (cause : String)
  | taskPanicked (uri : String) (message : String)
  | notOpen (uri : String)
  deriving DecidableEq, Repr

namespace LogEntry

def level : LogEntry → LogLevel
  | .starting | .ready | .stopping | .opened .. => .info
  | .columnsMayDrift | .emptyChange _ | .changeDropped .. | .noDiagnostics .. | .notOpen _ => .warn
  | .tooLarge .. | .partialChange _ | .workerNotStarted .. | .taskPanicked .. => .error

def message : LogEntry → String
  | .starting => "Logo Language Server initializing"
  | .columnsMayDrift =>
    "Client does not offer UTF-32 positions; columns may drift outside the BMP"
  | .ready => "Logo Language Server initialized"
  | .stopping => "Logo Language Server shutting down"
  | .opened uri bytes lines =>
    "Document opened: " ++ uri ++ " (" ++ toString bytes ++ " bytes, " ++ toString lines ++
      " lines)"
  | .tooLarge uri bytes limit =>
    "Document size limit exceeded: " ++ uri ++ " has " ++ toString bytes ++ " bytes > " ++
      toString limit ++ " bytes maximum"
  | .partialChange uri =>
    "Ignoring incremental change for " ++ uri ++ ": only full sync is supported"
  | .emptyChange uri => "Document change event for " ++ uri ++ " had no content changes"
  | .changeDropped uri cause => "Dropping change for " ++ uri ++ ": " ++ cause.message
  | .noDiagnostics uri cause => "No diagnostics for " ++ uri ++ ": " ++ cause.message
  | .workerNotStarted uri cause => "Failed to start worker for " ++ uri ++ ": " ++ cause
  | .taskPanicked uri message => "Task for " ++ uri ++ " panicked: " ++ message
  | .notOpen uri => "Cannot schedule " ++ uri ++ " for removal: document is not open"

def line (entry : LogEntry) : String :=
  entry.level.name ++ " " ++ entry.message

end LogEntry

end LogoServer
