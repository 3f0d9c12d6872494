import LogoServer.Registry
import LogoServer.Server.Message

/-! The language server: it keeps the documents of an editor, answers questions about them and
publishes what is wrong with them. -/
namespace LogoServer

/-- Diagnostics that will be published once a worker has read a text. -/
structure Publication where
  uri : String
  version : Int
  worker : Nat
  ticket : Nat
  deriving DecidableEq, Repr

structure Server where
  /-- Greatest size of a document, in bytes. -/
  maxSize : Nat
  registry : Registry
  versions : Std.TreeMap String Int := ∅
  /-- Publications to come, oldest first. -/
  pending : List Publication := []

namespace Server

/-- Greatest size of a document unless told otherwise: sixteen megabytes. -/
def defaultMaxSize : Nat := 16 * bytesPerMegabyte

def start (delay maxSize : Nat) : Server :=
  { maxSize, registry := { delay } }

/-- Number of lines of a text; what follows the last line feed counts unless it is empty. -/
def lineCount (text : List Char) : Nat :=
  text.count '\n' + if text.getLast?.all (· == '\n') then 0 else 1

/-- Takes over a new text of a document. A text over the limit is refused and leaves all as it
was. -/
def update (s : Server) (now : Nat) (uri : String) (version : Int) (text : String) :
    List Effect × Server :=
  let size := text.utf8ByteSize
  if s.maxSize < size then
    ([.logged (.tooLarge uri size s.maxSize), .sent (.tooLarge size s.maxSize)], s)
  else
    let s := { s with versions := s.versions.insert uri version }
    match s.registry.acquire now uri with
    | (.error cause, registry) => ([.logged (.workerNotStarted uri cause)], { s with registry })
    | (.ok worker, registry) =>
      match registry.submit worker uri (.setText text) with
      | .error cause => ([.logged (.changeDropped uri cause)], { s with registry })
      | .ok (ticket, registry) =>
        ([], { s with registry, pending := s.pending ++ [⟨uri, version, worker, ticket⟩] })

/-- Takes over the last of a list of changes, all of which have to give the whole text. -/
def change (s : Server) (now : Nat) (uri : String) (version : Int) (changes : List Change) :
    List Effect × Server :=
  if changes.any Change.isPartial then ([.logged (.partialChange uri)], s)
  else
    match changes.getLast? with
    | none => ([.logged (.emptyChange uri)], s)
    | some last => s.update now uri version last.text

/-- Closes a document and takes its diagnostics off the screen. -/
def close (s : Server) (now : Nat) (uri : String) : List Effect × Server :=
  let (wasOpen, registry) := s.registry.close now uri
  let warning := if wasOpen then [] else [Effect.logged (.notOpen uri)]
  (warning ++ [.sent (.publishDiagnostics uri [] none)],
    { s with registry, versions := s.versions.erase uri })

/-- Asks the worker a document has; none is started for a question. -/
def ask (s : Server) (now : Nat) (uri : String) (request : Request) :
    Except AnalysisError Reply × Server :=
  match s.registry.find now uri with
  | (none, registry) => (.error ⟨.notReady, uri⟩, { s with registry })
  | (some worker, registry) =>
    match registry.submit worker uri request with
    | .error cause => (.error cause, { s with registry })
    | .ok (ticket, registry) =>
      let (result, registry) := registry.await worker uri ticket
      (result, { s with registry })

def respond : Except AnalysisError Reply → Response
  | .ok (.deltas data) => .highlighting data
  | .ok (.locations found) => .locations found
  | .ok _ => .nothing
  | .error cause => .refused cause

def shutdown (s : Server) : Server :=
  { s with registry := s.registry.shutdownAll, versions := ∅ }

/-- What a call brings about. -/
structure Turn where
  response : Response
  effects : List Effect
  server : Server

/-- Answers a call at a time. Diagnostics of a new text are only prepared. -/
def call (s : Server) (now : Nat) : Call → Turn
  | .handshake encodings =>
    let offer := Capabilities.offered encodings
    let warning := if offer.positionEncoding.isNone then [Effect.logged .columnsMayDrift] else []
    ⟨.capabilities offer, .logged .starting :: warning, s⟩
  | .ready => ⟨.nothing, [.logged .ready], s⟩
  | .opened uri version text =>
    let (effects, s) := s.update now uri version text
    let entry := LogEntry.opened uri text.utf8ByteSize (lineCount text.toList)
    ⟨.nothing, .logged entry :: effects, s⟩
  | .changed uri version changes =>
    let (effects, s) := s.change now uri version changes
    ⟨.nothing, effects, s⟩
  | .saved _ => ⟨.nothing, [], s⟩
  | .closed uri =>
    let (effects, s) := s.close now uri
    ⟨.nothing, effects, s⟩
  | .highlighting uri =>
    let (result, s) := s.ask now uri .highlighting
    ⟨respond result, [], s⟩
  | .declaration uri line character =>
    let (result, s) := s.ask now uri (.declaration line character)
    ⟨respond result, [], s⟩
  | .shutdown => ⟨.nothing, [.logged .stopping], s.shutdown⟩

/-- Waits for the worker of a publication and sends the diagnostics, if the document still has the
version they belong to. -/
def publish (s : Server) (p : Publication) : List Effect × Server :=
  let (result, registry) := s.registry.await p.worker p.uri p.ticket
  let s := { s with registry }
  match result with
  | .error cause => ([.logged (.noDiagnostics p.uri cause)], s)
  | .ok (.diagnostics found) =>
    if s.versions[p.uri]? = some p.version then
      ([.sent (.publishDiagnostics p.uri found (some p.version))], s)
    else ([], s)
  | .ok _ => ([], s)

def publishAll : List Publication → Server → List Effect × Server
  | [], s => ([], s)
  | p :: ps, s =>
    let (effects, s) := s.publish p
    let (later, s) := publishAll ps s
    (effects ++ later, s)

def flush (s : Server) : List Effect × Server :=
  publishAll s.pending { s with pending := [] }

/-- Answers calls that arrive back to back, then carries out the publications. -/
def serveBurst (s : Server) (now : Nat) : List Call → List Response × List Effect × Server
  | [] =>
    let (effects, s) := s.flush
    ([], effects, s)
  | c :: calls =>
    let turn := s.call now c
    let (responses, effects, s) := turn.server.serveBurst now calls
    (turn.response :: responses, turn.effects ++ effects, s)

def serve (s : Server) (now : Nat) (c : Call) : Turn :=
  let turn := s.call now c
  let (effects, s) := turn.server.flush
  ⟨turn.response, turn.effects ++ effects, s⟩

end Server

end LogoServer
